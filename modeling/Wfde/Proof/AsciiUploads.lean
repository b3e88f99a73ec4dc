import Wfde.Proof.AsciiText
import Wfde.Proof.IncomingTransfers

/-!
# Uploads in ASCII type

`ReceiveFile` on a file that is wrapped for an ASCII transfer. A read goes to memory, and
`SetBytesWritten` asks the file for twice the room that the text takes. So the file is always cut when
it is closed, and a failure leaves nothing behind what has been received.
-/

namespace Wfde

open Effect FtpSession WfdeFile

namespace WfdeFile

variable {file : WfdeFile} {disk disk' : Disk} {held : Bytes}

/-- Nothing but what it holds is left of the file when it is closed. -/
structure Exact (file : WfdeFile) (disk : Disk) (held : Bytes) : Prop where
  takes : File.TakesUp file disk held
  cut : file.doTruncate = true ∨ disk.files.node file.path = some (.file held)

theorem make_exact {segmentSize : Nat} {path : PPath} {operation : FileOperation}
    (hop : operation ≠ .read) (hsegment : 0 < segmentSize)
    (h : (make segmentSize path operation).run disk = .ok file disk') :
    Exact file disk' (baseContent operation (disk.files.node path)) := by
  obtain ⟨hholds, hpos, hpath, -, -, -⟩ := make_holds hop hsegment h
  refine ⟨⟨hholds, hpos⟩, .inr ?_⟩
  have hafter := after_make segmentSize path operation disk
  rw [after_of_ok h] at hafter
  obtain ⟨_, prepared, hprepare, h⟩ := bind_eq_ok.mp h
  obtain ⟨size, _, hsize, -⟩ := bind_eq_ok.mp h
  obtain ⟨rfl, -, content, hnode, -⟩ := fileSize_eq_ok hsize
  have hvisible : disk.files.refuses .status path = false := by
    obtain ⟨_, _, hstatus, -⟩ := bind_eq_ok.mp hprepare
    exact (Disk.status_eq_ok.mp hstatus).1
  rw [hafter, after_of_ok hprepare, hpath, ← prepare_content hop hvisible hprepare hnode]
  exact hnode

theorem Exact.close (h : Exact file disk held) :
    ∃ disk', file.close.run disk = .ok file.unmapFile disk' ∧ Ends file.unmapFile disk' held
      ∧ disk'.files.node file.path = some (.file held) := by
  obtain ⟨disk', hrun, -, hends, hcut, hsame⟩ := h.takes.holds.ends.close
  refine ⟨disk', hrun, hends, ?_⟩
  rcases h.cut with htruncate | hnode
  · obtain ⟨_, hrun', -, hnode⟩ := h.takes.holds.close_of_doTruncate htruncate
    rw [hrun] at hrun'
    cases hrun'
    exact hnode
  · cases hcuts : file.cuts with
    | true => exact hcut hcuts
    | false => rw [hsame hcuts, hnode]

end WfdeFile

namespace FtpSession

/-- A transfer that has been started with a file that was opened to be written in ASCII type. -/
structure AsciiUploading (ftp : FtpSession) (path : PPath) (operation : FileOperation)
    (disk : Disk) : Prop where
  phase : ftp.transferFile = some .spawned
  transfer : ftp.state.transfer = .incoming
  file : ∃ file, (WfdeFile.make ftp.segmentSize path operation).run disk = .ok file ftp.disk
    ∧ ftp.currentFile = some (.ascii (.mapped file) [])
  writes : operation ≠ .read
  segment : 0 < ftp.segmentSize

section Stages

/-- The base content and the text of what the socket has returned. -/
def gatheredText (base : Bytes) (past : List SocketRead) : Bytes :=
  base ++ File.toLocal (past.flatMap SocketRead.bytes)

/-- What a transfer leaves behind the end of the data or a failure. -/
def TextSettled (path : PPath) (base : Bytes) (past : List SocketRead) (disk : Disk) : Prop :=
  lastAnswer past = some .eof ∨ lastAnswer past = some .failed →
    disk.files.node path = some (.file (gatheredText base past))

/-- The file that takes up the text as it comes, with its memory. -/
structure Wraps (segmentSize : Nat) (path : PPath) (file : File) (memory : Bytes) (raw : WfdeFile) :
    Prop where
  file : file = .ascii (.mapped raw) memory
  path : raw.path = path
  segment : raw.segmentSize = segmentSize

/-- What is known of it: `SetBytesWritten` takes the text from the memory, and there is room for it. -/
def wrapped (segmentSize : Nat) (path : PPath) (base : Bytes) : Receiver where
  ready past file disk := ∃ raw memory, Wraps segmentSize path file memory raw
    ∧ Exact raw disk (gatheredText base past)
  offers past buffer file disk := buffer.size = File.offered segmentSize
    ∧ ∃ raw memory, Wraps segmentSize path file memory raw ∧ Exact raw disk (gatheredText base past)
  stored past count file disk := 2 * count ≤ 7 * segmentSize
    ∧ ∃ raw memory held, Wraps segmentSize path file memory raw ∧ Exact raw disk held
      ∧ held ++ File.toLocal (memory.take count) = gatheredText base past
  complete past file disk := ∃ raw memory, Wraps segmentSize path file memory raw
    ∧ Exact raw disk (gatheredText base past)
  settled := TextSettled path base

variable {segmentSize : Nat} {path : PPath} {base held memory : Bytes} {past : List SocketRead}
  {buffer : WriteBuffer} {file : File} {raw : WfdeFile} {disk disk' : Disk}

theorem gatheredText_concat (base : Bytes) (past : List SocketRead) (read : SocketRead) :
    gatheredText base (past ++ [read]) = gatheredText base past ++ File.toLocal read.bytes := by
  simp [gatheredText, File.toLocal_append]

theorem setBytesWritten_exact {count : Nat} (h : Wraps segmentSize path file memory raw)
    (hexact : Exact raw disk held) (hcount : 2 * count ≤ 7 * segmentSize) :
    ∃ file' raw' disk', (file.setBytesWritten count).run disk = .ok file' disk'
      ∧ Wraps segmentSize path file' memory raw'
      ∧ Exact raw' disk' (held ++ File.toLocal (memory.take count)) := by
  obtain rfl := h.file
  obtain rfl := h.segment
  obtain ⟨raw', disk', hrun, htakes, htruncate, hsame, -⟩ :=
    File.setBytesWritten_ascii memory hexact.takes hcount
  exact ⟨_, raw', disk', hrun, ⟨rfl, hsame.path.trans h.path, hsame.segmentSize⟩, htakes,
    .inl htruncate⟩

theorem close_ascii (hclose : raw.close.run disk = .ok raw.unmapFile disk') :
    (File.close (.ascii (.mapped raw) memory)).run disk
      = .ok (.ascii (.mapped raw.unmapFile) memory) disk' :=
  bind_eq_ok.mpr ⟨_, _, bind_eq_ok.mpr ⟨_, _, hclose, rfl⟩, rfl⟩

theorem wrapped_write (h : (wrapped segmentSize path base).ready past file disk) :
    ∃ buffer file' disk', (file.write 0).run disk = .ok (buffer, file') disk'
      ∧ (wrapped segmentSize path base).offers past buffer file' disk' := by
  obtain ⟨raw, memory, hwraps, hexact⟩ := h
  obtain rfl := hwraps.file
  obtain rfl := hwraps.segment
  exact ⟨_, _, disk, File.write_ascii (.mapped raw) memory disk, rfl, raw, _,
    ⟨rfl, hwraps.path, rfl⟩, hexact⟩

/-- A read goes to the memory. -/
theorem wrapped_store {bytes : Bytes} (h : (wrapped segmentSize path base).offers past buffer file disk)
    (hle : bytes.length ≤ buffer.size) :
    ∃ file' disk', (file.store bytes buffer).run disk = .ok file' disk'
      ∧ (wrapped segmentSize path base).stored (past ++ [⟨buffer.size, .data bytes⟩]) bytes.length
        file' disk' := by
  obtain ⟨hsize, raw, memory, hwraps, hexact⟩ := h
  obtain rfl := hwraps.file
  have htaken : (bytes ++ memory.drop bytes.length).take bytes.length = bytes := List.take_left
  have hroom : 2 * bytes.length ≤ 7 * segmentSize := by
    rw [hsize] at hle
    unfold File.offered at hle
    omega
  refine ⟨.ascii (.mapped raw) (bytes ++ memory.drop bytes.length), disk, rfl, hroom, raw, _,
    gatheredText base past, ⟨rfl, hwraps.path, hwraps.segment⟩, hexact, ?_⟩
  rw [htaken]
  exact (gatheredText_concat base past ⟨buffer.size, .data bytes⟩).symm

theorem wrapped_takeUp {count : Nat}
    (h : (wrapped segmentSize path base).stored past count file disk) :
    ∃ file' disk', (file.setBytesWritten count).run disk = .ok file' disk'
      ∧ (wrapped segmentSize path base).ready past file' disk' := by
  obtain ⟨hcount, raw, memory, held, hwraps, hexact, hheld⟩ := h
  obtain ⟨file', raw', disk', hrun, hwraps', hexact'⟩ := setBytesWritten_exact hwraps hexact hcount
  rw [hheld] at hexact'
  exact ⟨file', disk', hrun, raw', memory, hwraps', hexact'⟩

theorem wrapped_finish (h : (wrapped segmentSize path base).offers past buffer file disk) :
    ∃ file' disk', (file.setBytesWritten 0).run disk = .ok file' disk'
      ∧ (wrapped segmentSize path base).complete (past ++ [⟨buffer.size, .eof⟩]) file' disk' := by
  obtain ⟨-, raw, memory, hwraps, hexact⟩ := h
  obtain ⟨file', raw', disk', hrun, hwraps', hexact'⟩ :=
    setBytesWritten_exact hwraps hexact (show 2 * 0 ≤ _ from Nat.zero_le _)
  refine ⟨file', disk', hrun, raw', memory, hwraps', ?_⟩
  rw [gatheredText_concat]
  exact hexact'

/-- Whenever the file is closed, nothing but the text is left. -/
theorem Wraps.node_close (h : Wraps segmentSize path file memory raw) (hexact : Exact raw disk held) :
    (after file.close disk).files.node path = some (.file held) := by
  obtain rfl := h.file
  obtain ⟨disk', hclose, -, hnode⟩ := hexact.close
  rw [after_of_ok (close_ascii hclose), ← h.path]
  exact hnode

theorem wrapped_abandon (h : (wrapped segmentSize path base).complete past file disk) :
    TextSettled path base past (after file.close disk) := by
  obtain ⟨raw, memory, hwraps, hexact⟩ := h
  exact fun _ => hwraps.node_close hexact

theorem wrapped_close (h : (wrapped segmentSize path base).complete past file disk) :
    ∃ file' disk', file.close.run disk = .ok file' disk'
      ∧ TextSettled path base past (after file'.close disk') := by
  obtain ⟨raw, memory, hwraps, hexact⟩ := h
  obtain rfl := hwraps.file
  obtain ⟨closed, hclose, hends, hnode⟩ := hexact.close
  have hpath : raw.unmapFile.path = raw.path := raw.unmapFile_eq.2.2.2.1
  obtain ⟨again, hagain, hkept⟩ := hends.close_again (by rw [hpath]; exact hnode)
  refine ⟨_, closed, close_ascii hclose, fun _ => ?_⟩
  rw [after_of_ok (close_ascii hagain), ← hwraps.path, ← hpath]
  exact hkept

/-- A failure leaves what has been received. -/
theorem wrapped_fail (h : (wrapped segmentSize path base).offers past buffer file disk) :
    TextSettled path base (past ++ [⟨buffer.size, .failed⟩]) (after file.close disk) := by
  obtain ⟨-, raw, memory, hwraps, hexact⟩ := h
  intro _
  rw [gatheredText_concat, hwraps.node_close hexact]
  exact congrArg (fun text => some (Node.file text)) (List.append_nil _).symm

theorem sound_wrapped (segmentSize : Nat) (path : PPath) (base : Bytes) :
    (wrapped segmentSize path base).Sound where
  write := wrapped_write
  store := wrapped_store
  takeUp := wrapped_takeUp
  finish := wrapped_finish
  close := wrapped_close
  abandon := wrapped_abandon
  fail := wrapped_fail
  unsettled _ heof hfailed := fun hlast => hlast.elim (absurd · heof) (absurd · hfailed)

theorem AsciiUploading.receives {ftp : FtpSession} {operation : FileOperation}
    (h : AsciiUploading ftp path operation disk) :
    ((wrapped ftp.segmentSize path (baseContent operation (disk.files.node path))).course []).At
      ftp := by
  obtain ⟨file, hmake, hfile⟩ := h.file
  obtain ⟨-, -, hpath, -, hsegment, -⟩ := make_holds h.writes h.segment hmake
  refine ⟨fun _ => h.transfer, ?_⟩
  rw [h.phase]
  refine ⟨rfl, _, hfile, file, [], ⟨rfl, hpath, hsegment⟩, ?_⟩
  have hexact := make_exact h.writes h.segment hmake
  rwa [gatheredText, List.flatMap_nil, show File.toLocal [] = [] from rfl, List.append_nil]

end Stages

end FtpSession

end Wfde
