import Wfde.Proof.MappedFile
import Wfde.Proof.Rename
import Wfde.AsciiFile

/-!
# ASCII transfers

Both converters of `WfdeAsciiFile` work byte by byte, so that it does not matter where a text is cut.
Behind every chunk of an upload the mapped file is stepped back from the room that was asked for to
the text that was stored there.
-/

namespace Wfde

open Effect

namespace File

section Converters

variable (text : Bytes) (chunks : List Bytes)

/-- A text without its CRs, and every LF replaced by CR LF. -/
def crlfText : Bytes := (text.filter (· ≠ cr)).flatMap fun c => if c = lf then [cr, lf] else [c]

theorem toWire_eq_crlfText : toWire text = crlfText text := by
  unfold crlfText toWire
  induction text with
  | nil => rfl
  | cons c text ih =>
      by_cases hcr : c = cr
      · simp [hcr, ih]
      · simp [hcr, ih]

theorem flatMap_flatten (f : UInt8 → Bytes) :
    chunks.flatten.flatMap f = (chunks.map (·.flatMap f)).flatten := by
  rw [← List.flatMap_id, List.flatMap_assoc]
  rfl

theorem toWire_flatten : toWire chunks.flatten = (chunks.map toWire).flatten :=
  flatMap_flatten chunks _

theorem toLocal_append (front back : Bytes) :
    toLocal (front ++ back) = toLocal front ++ toLocal back := List.flatMap_append

/-- A text without CRs comes back as it was. -/
theorem toLocal_toWire {text : Bytes} (h : cr ∉ text) : toLocal (toWire text) = text := by
  induction text with
  | nil => rfl
  | cons c text ih =>
      obtain ⟨hcr, htext⟩ := not_or.mp (mt List.mem_cons.mpr h)
      have hwire : toWire (c :: text) = (if c = lf then [cr, lf] else [c]) ++ toWire text := by
        rw [toWire, List.flatMap_cons, if_neg (Ne.symm hcr)]
        rfl
      rw [hwire, toLocal_append, ih htext]
      by_cases hlf : c = lf
      · rw [if_pos hlf, hlf]
        rfl
      · rw [if_neg hlf]
        simp [toLocal, Ne.symm hcr, hlf]

theorem length_toLocal_le : (toLocal text).length ≤ text.length := by
  induction text with
  | nil => exact le_rfl
  | cons c text ih =>
      have hone : (if c = cr then [] else if c = lf then localEol else [c]).length ≤ 1 := by
        split
        · exact Nat.zero_le 1
        · split <;> exact le_rfl
      rw [toLocal, List.flatMap_cons, List.length_append, List.length_cons, Nat.add_comm]
      exact Nat.add_le_add ih hone

end Converters

section Reading

/-- So many calls of `Read`, and the buffers they return. -/
def readMany : Nat → File → DiskM (List Bytes × File)
  | 0, file => return ([], file)
  | count + 1, file => do
      let (buffer, file) ← file.read 0
      let (buffers, file) ← readMany count file
      return (buffer :: buffers, file)

theorem readMany_ascii {count : Nat} {file : RawFile} {disk disk' : Disk} {buffers : List Bytes}
    {left : File} (h : (readMany count (.raw file)).run disk = .ok (buffers, left) disk')
    (memory : Bytes) :
    ∃ left', (readMany count (.ascii file memory)).run disk
      = .ok (buffers.map toWire, left') disk' := by
  induction count generalizing file disk buffers memory with
  | zero =>
      obtain ⟨hnil, rfl⟩ := pure_eq_ok.mp h
      obtain ⟨rfl, -⟩ := Prod.mk.inj hnil
      exact ⟨_, rfl⟩
  | succ count ih =>
      obtain ⟨⟨buffer, next⟩, disk₁, hread, h⟩ := bind_eq_ok.mp h
      obtain ⟨⟨rest, last⟩, disk₂, hrest, h⟩ := bind_eq_ok.mp h
      obtain ⟨hcons, rfl⟩ := pure_eq_ok.mp h
      obtain ⟨rfl, rfl⟩ := Prod.mk.inj hcons
      obtain ⟨⟨bytesRead, raw⟩, disk₀, hraw, hread⟩ := bind_eq_ok.mp hread
      obtain ⟨hpair, rfl⟩ := pure_eq_ok.mp hread
      obtain ⟨rfl, rfl⟩ := Prod.mk.inj hpair
      obtain ⟨left', hmany⟩ := ih hrest (toWire bytesRead)
      refine ⟨left', ?_⟩
      have hconverted : (File.read 0 (.ascii file memory)).run disk
          = .ok (toWire bytesRead, .ascii raw (toWire bytesRead)) disk₀ :=
        bind_eq_ok.mpr ⟨_, _, hraw, rfl⟩
      exact bind_eq_ok.mpr ⟨_, _, hconverted, bind_eq_ok.mpr ⟨_, _, hmany, rfl⟩⟩

end Reading

section Writing

/-- The room that `Write()` offers. -/
def offered (segmentSize : Nat) : Nat := min segmentSize (segmentSize / 2)

theorem write_ascii (file : RawFile) (memory : Bytes) (disk : Disk) :
    (write 0 (.ascii file memory)).run disk
      = .ok (.memory (offered file.getSegmentSize),
          .ascii file (List.replicate (offered file.getSegmentSize) 0)) disk := rfl

/-- What `ReceiveFile` does with a chunk. -/
def receive (file : File) (chunk : Bytes) : DiskM File := do
  let (buffer, file) ← file.write 0
  let file ← file.store chunk buffer
  file.setBytesWritten chunk.length

/-- An upload: the chunks, the read that meets the end of them, and `Close`. -/
def receiveAll (file : File) (chunks : List Bytes) : DiskM File := do
  let file ← chunks.foldlM receive file
  let (_, file) ← file.write 0
  let file ← file.setBytesWritten 0
  file.close

variable {file : WfdeFile} {disk : Disk} {held : Bytes} (memory : Bytes)

/-- A mapped file that has taken up what was stored. -/
structure TakesUp (file : WfdeFile) (disk : Disk) (held : Bytes) : Prop where
  holds : WfdeFile.Holds file disk held
  pos : file.pos = held.length

theorem setBytesWritten_ascii (h : TakesUp file disk held) {count : Nat}
    (hcount : 2 * count ≤ 7 * file.segmentSize) :
    ∃ file' disk', (setBytesWritten count (.ascii (.mapped file) memory)).run disk
        = .ok (.ascii (.mapped file') memory) disk'
      ∧ TakesUp file' disk' (held ++ toLocal (memory.take count))
      ∧ file'.doTruncate = true ∧ WfdeFile.SameFile file file'
      ∧ Disk.OnlyAt file.path disk disk' := by
  set text := toLocal (memory.take count) with htext
  have hlength : text.length ≤ count :=
    le_trans (length_toLocal_le _) (by rw [List.length_take]; exact Nat.min_le_left _ _)
  set size := if count * 2 = 0 then file.segmentSize else count * 2 with hsize
  have hsegment := h.holds.segment
  have hroom : text.length < size := by
    rw [hsize]
    split <;> omega
  have hle : size ≤ 7 * file.segmentSize := by
    rw [hsize]
    split <;> omega
  obtain ⟨offering, disk₁, hwrite, hoffers, hsame, -, honly⟩ :=
    WfdeFile.write_run h.holds h.pos hsize hle
  obtain ⟨disk₂, hstore, hstored, honly'⟩ := WfdeFile.store_run hoffers hroom.le
  obtain ⟨hholds, hpos, htruncate, hsame', -⟩ := hstored.setBytesWritten
  refine ⟨offering.setBytesWritten text.length, disk₂, ?_, ⟨hholds, hpos⟩, ?_, ?_, ?_⟩
  · have hraw : (RawFile.write (count * 2) (.mapped file)).run disk
        = .ok (.region ⟨held.length, size⟩, .mapped offering) disk₁ :=
      bind_eq_ok.mpr ⟨_, _, hwrite, rfl⟩
    refine bind_eq_ok.mpr ⟨_, _, hraw, ?_⟩
    exact bind_eq_ok.mpr ⟨_, _, hstore, rfl⟩
  · rw [htruncate, decide_eq_true hroom, Bool.or_true]
  · exact ⟨hsame'.path.trans hsame.path, hsame'.operation.trans hsame.operation,
      hsame'.segmentSize.trans hsame.segmentSize⟩
  · rw [hsame.path] at honly'
    exact IsTrans.trans _ _ _ honly honly'

theorem receive_ascii (h : TakesUp file disk held) {chunk : Bytes}
    (hfit : chunk.length ≤ offered file.segmentSize) :
    ∃ file' memory' disk', (receive (.ascii (.mapped file) memory) chunk).run disk
        = .ok (.ascii (.mapped file') memory') disk'
      ∧ TakesUp file' disk' (held ++ toLocal chunk) ∧ WfdeFile.SameFile file file'
      ∧ Disk.OnlyAt file.path disk disk' := by
  let memory' := chunk ++ (List.replicate (offered file.segmentSize) 0).drop chunk.length
  have hcount : 2 * chunk.length ≤ 7 * file.segmentSize := by
    unfold offered at hfit
    omega
  have htake : memory'.take chunk.length = chunk := List.take_left
  obtain ⟨file', disk', hset, htakes, -, hsame, honly⟩ :=
    setBytesWritten_ascii memory' h hcount
  rw [htake] at htakes
  refine ⟨file', memory', disk', ?_, htakes, hsame, honly⟩
  exact bind_eq_ok.mpr ⟨_, _, write_ascii (.mapped file) memory disk, hset⟩

theorem receiveChunks_ascii (chunks : List Bytes) (h : TakesUp file disk held)
    (hfit : ∀ chunk ∈ chunks, chunk.length ≤ offered file.segmentSize) :
    ∃ file' memory' disk', (chunks.foldlM receive (.ascii (.mapped file) memory)).run disk
        = .ok (.ascii (.mapped file') memory') disk'
      ∧ TakesUp file' disk' (held ++ toLocal chunks.flatten) ∧ WfdeFile.SameFile file file'
      ∧ Disk.OnlyAt file.path disk disk' := by
  induction chunks generalizing file disk held memory with
  | nil =>
      refine ⟨file, memory, disk, rfl, ?_, ⟨rfl, rfl, rfl⟩, Std.Refl.refl disk⟩
      rw [List.flatten_nil, show toLocal [] = [] from rfl, List.append_nil]
      exact h
  | cons chunk chunks ih =>
      obtain ⟨hchunk, hrest⟩ := List.forall_mem_cons.mp hfit
      obtain ⟨file₁, memory₁, disk₁, hreceive, htakes, hsame, honly⟩ := receive_ascii memory h hchunk
      rw [← hsame.segmentSize] at hrest
      obtain ⟨file₂, memory₂, disk₂, hreceives, htakes', hsame', honly'⟩ := ih memory₁ htakes hrest
      refine ⟨file₂, memory₂, disk₂, ?_, ?_, ?_, ?_⟩
      · rw [List.foldlM_cons]
        exact bind_eq_ok.mpr ⟨_, _, hreceive, hreceives⟩
      · rw [List.flatten_cons, toLocal_append, ← List.append_assoc]
        exact htakes'
      · exact ⟨hsame'.path.trans hsame.path, hsame'.operation.trans hsame.operation,
          hsame'.segmentSize.trans hsame.segmentSize⟩
      · rw [hsame.path] at honly'
        exact IsTrans.trans _ _ _ honly honly'

theorem receiveAll_ascii (chunks : List Bytes) (h : TakesUp file disk held)
    (hfit : ∀ chunk ∈ chunks, chunk.length ≤ offered file.segmentSize) :
    ∃ file' disk', (receiveAll (.ascii (.mapped file) memory) chunks).run disk = .ok file' disk'
      ∧ disk'.files.node file.path = some (.file (held ++ toLocal chunks.flatten))
      ∧ Disk.OnlyAt file.path disk disk' := by
  obtain ⟨file₁, memory₁, disk₁, hreceives, htakes, hsame, honly⟩ :=
    receiveChunks_ascii memory chunks h hfit
  let room := List.replicate (offered file₁.segmentSize) (0 : UInt8)
  obtain ⟨file₂, disk₂, hset, htakes', htruncate, hsame', honly'⟩ :=
    setBytesWritten_ascii room htakes (show 2 * 0 ≤ 7 * file₁.segmentSize from Nat.zero_le _)
  rw [List.take_zero, show toLocal [] = [] from rfl, List.append_nil] at htakes'
  obtain ⟨disk₃, hclose, honly'', hnode⟩ := htakes'.holds.close_of_doTruncate htruncate
  rw [hsame.path] at honly'
  rw [hsame'.path, hsame.path] at honly'' hnode
  refine ⟨.ascii (.mapped file₂.unmapFile) room, disk₃, ?_, hnode, ?_⟩
  · refine bind_eq_ok.mpr ⟨_, _, hreceives, ?_⟩
    refine bind_eq_ok.mpr ⟨_, _, write_ascii (.mapped file₁) memory₁ disk₁, ?_⟩
    refine bind_eq_ok.mpr ⟨_, _, hset, ?_⟩
    have hraw : (RawFile.close (.mapped file₂)).run disk₂ = .ok (.mapped file₂.unmapFile) disk₃ :=
      bind_eq_ok.mpr ⟨_, _, hclose, rfl⟩
    exact bind_eq_ok.mpr ⟨_, _, hraw, rfl⟩
  · exact IsTrans.trans _ _ _ honly (IsTrans.trans _ _ _ honly' honly'')

end Writing

/-- **ASCII transfers.** However the wrapped file cuts a text into buffers, the converted buffers are
the text with its CRs removed and its LFs replaced by CR LF. A text without CRs that is uploaded from
these bytes, in whatever chunks, is in the file as it was, and no chunk needs more than twice its
length. -/
theorem ascii_roundTrip {raw : RawFile} {source source' : Disk} {count : Nat} {buffers : List Bytes}
    {left : File} (hread : (readMany count (.raw raw)).run source = .ok (buffers, left) source')
    {segmentSize : Nat} {path : PPath} {operation : FileOperation} {disk opened : Disk}
    {file : WfdeFile} (hop : operation ≠ .read) (hsegment : 0 < segmentSize)
    (hopen : (WfdeFile.make segmentSize path operation).run disk = .ok file opened)
    (memory : Bytes) :
    ∃ wire left', (readMany count (.ascii raw memory)).run source = .ok (wire, left') source'
      ∧ wire.flatten = crlfText buffers.flatten
      ∧ ∀ chunks : List Bytes, chunks.flatten = wire.flatten → cr ∉ buffers.flatten →
        (∀ chunk ∈ chunks, chunk.length ≤ offered segmentSize) →
        (∀ chunk ∈ chunks, (toLocal chunk).length ≤ chunk.length * 2)
        ∧ ∃ file' disk', (receiveAll (.ascii (.mapped file) memory) chunks).run opened = .ok file' disk'
          ∧ disk'.files.node path = some (.file
            (WfdeFile.baseContent operation (disk.files.node path) ++ buffers.flatten)) := by
  obtain ⟨left', hascii⟩ := readMany_ascii hread memory
  have hwire : (buffers.map toWire).flatten = crlfText buffers.flatten := by
    rw [← toWire_flatten, toWire_eq_crlfText]
  refine ⟨_, left', hascii, hwire, fun chunks hchunks htext hfit => ⟨fun chunk _ => ?_, ?_⟩⟩
  · have hle := length_toLocal_le chunk
    omega
  · obtain ⟨hholds, hpos, hpath, -, hsize, -⟩ := WfdeFile.make_holds hop hsegment hopen
    rw [← hsize] at hfit
    obtain ⟨file', disk', hrun, hnode, -⟩ := receiveAll_ascii memory chunks ⟨hholds, hpos⟩ hfit
    refine ⟨file', disk', hrun, ?_⟩
    rw [← hpath, hnode, hpath, hchunks, ← toWire_flatten, toLocal_toWire htext]

/-- Two lines that are cut inside the first one, and uploaded in chunks of which the first ends
between CR and LF. -/
theorem ascii_roundTrip_two_lines :
    ∃ wire left', (readMany 2 (.ascii (.listing [bytes "a", bytes "\nb"] false) [])).run
        (oneFileDisk []) = .ok (wire, left') (oneFileDisk [])
      ∧ wire.flatten = bytes "a\r\nb"
      ∧ ∃ file opened file' disk',
        (WfdeFile.make 4 [bytes "srv", bytes "a"] .write).run (oneFileDisk []) = .ok file opened
        ∧ (receiveAll (.ascii (.mapped file) []) [bytes "a\r", bytes "\nb"]).run opened
          = .ok file' disk'
        ∧ disk'.files.node [bytes "srv", bytes "a"] = some (.file (bytes "a\nb")) := by
  have hread : (readMany 2 (.raw (.listing [bytes "a", bytes "\nb"] false))).run (oneFileDisk [])
      = .ok ([bytes "a", bytes "\nb"], .raw (.listing [] true)) (oneFileDisk []) := rfl
  obtain ⟨wire, left', hwire, hflatten, hupload⟩ := ascii_roundTrip hread (by decide) (by decide)
    (show (WfdeFile.make 4 [bytes "srv", bytes "a"] .write).run (oneFileDisk []) = _ from rfl) []
  have htext : wire.flatten = bytes "a\r\nb" := hflatten.trans (by decide)
  obtain ⟨-, file', disk', hreceive, hnode⟩ := hupload [bytes "a\r", bytes "\nb"] htext.symm
    (by decide) (by decide)
  exact ⟨wire, left', hwire, htext, _, _, file', disk', rfl, hreceive, hnode⟩

end File

end Wfde
