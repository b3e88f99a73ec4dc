import Wfde.Proof.MappedFile
import Wfde.Proof.Progress
import Wfde.Proof.Rename

/-!
# Uploads

`ReceiveFile` on a mapped file. What is left of the padding is cut off by `Close` only if a read has
been short, or the end of the data has been seen.
-/

namespace Wfde

open Effect FtpSession

namespace FtpSession

/-- A transfer that has been started with a file that was opened to be written. -/
structure Uploading (ftp : FtpSession) (path : PPath) (operation : FileOperation) (disk : Disk) :
    Prop where
  phase : ftp.transferFile = some .spawned
  transfer : ftp.state.transfer = .incoming
  file : ∃ file, (WfdeFile.make ftp.segmentSize path operation).run disk = .ok file ftp.disk
    ∧ ftp.currentFile = some (.raw (.mapped file))
  writes : operation ≠ .read
  segment : 0 < ftp.segmentSize

section Stages

open WfdeFile

/-- The base content and what the socket has returned. -/
def gathered (base : Bytes) (past : List SocketRead) : Bytes := base ++ past.flatMap SocketRead.bytes

theorem gathered_concat (base : Bytes) (past : List SocketRead) (read : SocketRead) :
    gathered base (past ++ [read]) = gathered base past ++ read.bytes := by
  simp [gathered]

/-- What a transfer leaves: all that has been received and nothing else behind the end of the data,
and behind a failure padding unless a read has been short. -/
structure Settled (path : PPath) (base : Bytes) (past : List SocketRead) (disk : Disk) : Prop where
  eof : lastAnswer past = some .eof → disk.files.node path = some (.file (gathered base past))
  failed : lastAnswer past = some .failed →
    ∃ padding, disk.files.node path = some (.file (gathered base past ++ padding))
      ∧ (padding = [] ↔ past.any SocketRead.isShort = true)

/-- The file that takes up the data as it comes. -/
structure Maps (segmentSize : Nat) (path : PPath) (file : File) (mapped : WfdeFile) : Prop where
  file : file = .raw (.mapped mapped)
  path : mapped.path = path
  segment : mapped.segmentSize = segmentSize

/-- What is known of it: it is cut when it is closed if and only if a read has been short, or the end
has been seen. -/
def mapped (segmentSize : Nat) (path : PPath) (base : Bytes) : Receiver where
  ready past file disk := ∃ mapped, Maps segmentSize path file mapped
    ∧ Holds mapped disk (gathered base past) ∧ mapped.pos = (gathered base past).length
    ∧ mapped.doTruncate = past.any SocketRead.isShort
  offers past buffer file disk := ∃ mapped region, Maps segmentSize path file mapped
    ∧ buffer = .region region ∧ region.size = segmentSize
    ∧ Offers mapped disk (gathered base past) region
    ∧ mapped.doTruncate = past.any SocketRead.isShort
  stored past count file disk := ∃ mapped region held bytes, Maps segmentSize path file mapped
    ∧ count = bytes.length ∧ Stored mapped disk held region bytes ∧ held ++ bytes = gathered base past
    ∧ (mapped.doTruncate || decide (bytes.length < region.size)) = past.any SocketRead.isShort
  complete past file disk := lastAnswer past = some .eof ∧ ∃ mapped, Maps segmentSize path file mapped
    ∧ Holds mapped disk (gathered base past) ∧ mapped.doTruncate = true
  settled := Settled path base

variable {path : PPath} {base held : Bytes} {past : List SocketRead} {ftp : FtpSession}
  {segmentSize : Nat} {file : File} {raw : WfdeFile} {disk disk' : Disk}

theorem Maps.of_same {raw' : WfdeFile} (h : Maps segmentSize path file raw)
    (hsame : SameFile raw raw') : Maps segmentSize path (.raw (.mapped raw')) raw' :=
  ⟨rfl, hsame.path.trans h.path, hsame.segmentSize.trans h.segment⟩

theorem close_raw (hclose : raw.close.run disk = .ok raw.unmapFile disk') :
    (File.close (.raw (.mapped raw))).run disk = .ok (.raw (.mapped raw.unmapFile)) disk' :=
  bind_eq_ok.mpr ⟨_, _, bind_eq_ok.mpr ⟨_, _, hclose, rfl⟩, rfl⟩

/-- What the next `Write` offers. -/
theorem mapped_write (h : (mapped segmentSize path base).ready past file disk) :
    ∃ buffer file' disk', (file.write 0).run disk = .ok (buffer, file') disk'
      ∧ (mapped segmentSize path base).offers past buffer file' disk' := by
  obtain ⟨raw, hmaps, hholds, hpos, hshort⟩ := h
  obtain rfl := hmaps.file
  have hsize : raw.segmentSize ≤ 7 * raw.segmentSize := by omega
  have hwhole : raw.segmentSize = if 0 = 0 then raw.segmentSize else 0 := rfl
  obtain ⟨raw', disk', hrun, hoffers, hsame, htruncate, -⟩ := write_run hholds hpos hwhole hsize
  refine ⟨.region ⟨_, raw.segmentSize⟩, .raw (.mapped raw'), disk', ?_, raw', _, hmaps.of_same hsame,
    rfl, hmaps.segment, hoffers, htruncate.trans hshort⟩
  exact bind_eq_ok.mpr ⟨_, _, bind_eq_ok.mpr ⟨_, _, hrun, rfl⟩, rfl⟩

theorem mapped_store {buffer : WriteBuffer} {bytes : Bytes}
    (h : (mapped segmentSize path base).offers past buffer file disk) (hle : bytes.length ≤ buffer.size) :
    ∃ file' disk', (file.store bytes buffer).run disk = .ok file' disk'
      ∧ (mapped segmentSize path base).stored (past ++ [⟨buffer.size, .data bytes⟩]) bytes.length file'
        disk' := by
  obtain ⟨raw, region, hmaps, rfl, -, hoffers, hshort⟩ := h
  obtain rfl := hmaps.file
  obtain ⟨disk', hrun, hstored, -⟩ := store_run hoffers hle
  refine ⟨.raw (.mapped raw), disk', ?_, raw, region, _, bytes, hmaps, rfl, hstored,
    (gathered_concat base past ⟨region.size, .data bytes⟩).symm, ?_⟩
  · exact bind_eq_ok.mpr ⟨_, _, bind_eq_ok.mpr ⟨_, _, hrun, rfl⟩, rfl⟩
  · rw [List.any_append, hshort, List.any_cons, List.any_nil, Bool.or_false]
    rfl

theorem mapped_takeUp {count : Nat} (h : (mapped segmentSize path base).stored past count file disk) :
    ∃ file' disk', (file.setBytesWritten count).run disk = .ok file' disk'
      ∧ (mapped segmentSize path base).ready past file' disk' := by
  obtain ⟨raw, region, held, bytes, hmaps, rfl, hstored, hheld, hshort⟩ := h
  obtain rfl := hmaps.file
  obtain ⟨hholds, hpos, htruncate, hsame, -⟩ := hstored.setBytesWritten
  rw [hheld] at hholds hpos
  exact ⟨_, disk, rfl, _, hmaps.of_same hsame, hholds, hpos, htruncate.trans hshort⟩

/-- Behind the end of the data the file is cut. -/
theorem mapped_finish {buffer : WriteBuffer} (hsegment : 0 < segmentSize)
    (h : (mapped segmentSize path base).offers past buffer file disk) :
    ∃ file' disk', (file.setBytesWritten 0).run disk = .ok file' disk'
      ∧ (mapped segmentSize path base).complete (past ++ [⟨buffer.size, .eof⟩]) file' disk' := by
  obtain ⟨raw, region, hmaps, rfl, hsize, hoffers, -⟩ := h
  obtain rfl := hmaps.file
  obtain ⟨hholds, -, htruncate, hsame, -⟩ := hoffers.stored.setBytesWritten
  refine ⟨_, disk, rfl, lastAnswer_concat past _, _, hmaps.of_same hsame, ?_, ?_⟩
  · rw [gathered_concat]
    exact hholds
  · exact htruncate.trans (by simp [hsize, hsegment])

theorem mapped_abandon (h : (mapped segmentSize path base).complete past file disk) :
    Settled path base past (after file.close disk) := by
  obtain ⟨heof, raw, hmaps, hholds, htruncate⟩ := h
  obtain rfl := hmaps.file
  refine ⟨fun _ => ?_, fun hfailed => by rw [heof] at hfailed; cases hfailed⟩
  obtain ⟨disk', hrun, -, hnode⟩ := hholds.close_of_doTruncate htruncate
  rw [after_of_ok (close_raw hrun), ← hmaps.path]
  exact hnode

/-- Closing the file again changes nothing. -/
theorem mapped_close (h : (mapped segmentSize path base).complete past file disk) :
    ∃ file' disk', file.close.run disk = .ok file' disk'
      ∧ Settled path base past (after file'.close disk') := by
  obtain ⟨heof, raw, hmaps, hholds, htruncate⟩ := h
  obtain rfl := hmaps.file
  obtain ⟨closed, hclose, -, hends, -, -⟩ := hholds.ends.close
  have hnode : closed.files.node raw.path = some (.file (gathered base past)) := by
    obtain ⟨_, hsame, -, hnode⟩ := hholds.close_of_doTruncate htruncate
    rw [hclose] at hsame
    cases hsame
    exact hnode
  have hpath : raw.unmapFile.path = raw.path := raw.unmapFile_eq.2.2.2.1
  obtain ⟨again, hagain, hkept⟩ := hends.close_again (by rw [hpath]; exact hnode)
  refine ⟨_, closed, close_raw hclose, fun _ => ?_, fun hfailed => by rw [heof] at hfailed; cases hfailed⟩
  rw [after_of_ok (close_raw hagain), ← hmaps.path, ← hpath]
  exact hkept

/-- Behind a failure the padding is cut off only if a read has been short. -/
theorem mapped_fail {buffer : WriteBuffer} (hsegment : 0 < segmentSize)
    (h : (mapped segmentSize path base).offers past buffer file disk) :
    Settled path base (past ++ [⟨buffer.size, .failed⟩]) (after file.close disk) := by
  obtain ⟨raw, region, hmaps, rfl, hsize, hoffers, hshort⟩ := h
  obtain rfl := hmaps.file
  let last : SocketRead := ⟨region.size, .failed⟩
  have hlast : lastAnswer (past ++ [last]) = some .failed := lastAnswer_concat past last
  have hgathered : gathered base (past ++ [last]) = gathered base past :=
    (gathered_concat base past last).trans (List.append_nil _)
  have hany : (past ++ [last]).any SocketRead.isShort = raw.doTruncate := by
    rw [List.any_append, hshort]
    exact Bool.or_false _
  change Settled path base (past ++ [last]) _
  refine ⟨fun heof => ?_, fun _ => ?_⟩
  · rw [hlast] at heof
    cases heof
  · rw [hgathered, hany]
    cases htruncate : raw.doTruncate with
    | true =>
        obtain ⟨disk', hrun, -, hnode⟩ := hoffers.holds.close_of_doTruncate htruncate
        rw [after_of_ok (close_raw hrun), ← hmaps.path]
        exact ⟨[], by rw [List.append_nil]; exact hnode, by simp⟩
    | false =>
        obtain ⟨disk', hrun, -, -, -, hsame⟩ := hoffers.holds.ends.close
        obtain ⟨padding, hnode, hlength⟩ := hoffers.holds.content
        have hroom := hoffers.room
        have hpadding : padding ≠ [] := by
          rintro rfl
          simp only [List.length_nil] at hlength
          omega
        rw [after_of_ok (close_raw hrun), hsame (by rw [cuts, htruncate]; rfl), ← hmaps.path]
        exact ⟨padding, hnode, by simp [hpadding]⟩

theorem sound_mapped (path : PPath) (base : Bytes) (hsegment : 0 < segmentSize) :
    (mapped segmentSize path base).Sound where
  write := mapped_write
  store := mapped_store
  takeUp := mapped_takeUp
  finish := mapped_finish hsegment
  close := mapped_close
  abandon := mapped_abandon
  fail := mapped_fail hsegment
  unsettled _ heof hfailed := ⟨fun h => absurd h heof, fun h => absurd h hfailed⟩

theorem offers_mapped (path : PPath) (base : Bytes) :
    (mapped segmentSize path base).Offers segmentSize := by
  rintro past buffer file disk ⟨raw, region, -, rfl, hsize, -⟩
  exact hsize

variable {operation : FileOperation} {event : Event} {events : List Event} {reads : List SocketRead}
  {offered : Nat}

theorem Uploading.ready (h : Uploading ftp path operation disk) :
    On ((mapped ftp.segmentSize path (baseContent operation (disk.files.node path))).ready []) ftp := by
  obtain ⟨file, hmake, hfile⟩ := h.file
  obtain ⟨hholds, hpos, hpath, -, hsegment, htruncate⟩ := make_holds h.writes h.segment hmake
  have hbase (base : Bytes) : gathered base [] = base := List.append_nil base
  refine ⟨_, hfile, file, ⟨rfl, hpath, hsegment⟩, ?_, ?_, htruncate⟩
  · rwa [hbase]
  · rwa [hbase]

theorem Uploading.receives (h : Uploading ftp path operation disk) :
    ((mapped ftp.segmentSize path (baseContent operation (disk.files.node path))).course []).At ftp := by
  refine ⟨fun _ => h.transfer, ?_⟩
  rw [h.phase]
  exact ⟨rfl, h.ready⟩

theorem Uploading.readsUndisturbed (h : Uploading ftp path operation disk) : ReadsUndisturbed ftp :=
  Receiver.readsUndisturbed (sound_mapped _ _ h.segment) (offers_mapped _ _) h.phase h.transfer h.ready

theorem Uploading.failed_iff (h : Uploading ftp path operation disk)
    (hreads : socketReads ftp events = reads ++ [⟨offered, .failed⟩])
    (hfits : ∀ read ∈ reads, read.Fits) (more : List Event)
    (hdone : (runTransfer ftp (events ++ more)).transferFile = none) :
    (runTransfer ftp (events ++ more)).disk.files.node path
        = some (.file (baseContent operation (disk.files.node path)
          ++ reads.flatMap SocketRead.bytes))
      ↔ ∃ read ∈ reads, read.isShort = true := by
  obtain ⟨hreceives, -⟩ := Receiver.ends (sound_mapped _ _ h.segment) h.receives hreads hfits (.inr rfl)
    more
  have hsettled := hreceives.phase
  rw [hdone] at hsettled
  obtain ⟨padding, hnode, hpadding⟩ := hsettled.failed (lastAnswer_concat _ _)
  rw [gathered, flatMap_bytes_concat reads (.inr rfl)] at hnode
  have hlast : SocketRead.isShort ⟨offered, .failed⟩ = false := rfl
  rw [List.any_append, List.any_cons, hlast, List.any_nil, Bool.or_self, Bool.or_false,
    List.any_eq_true] at hpadding
  rw [hnode, ← hpadding]
  constructor
  · intro hsame
    simpa using hsame
  · rintro rfl
    rw [List.append_nil]

theorem Uploading.stores (h : Uploading ftp path operation disk)
    (hreads : socketReads ftp events = reads ++ [⟨offered, .eof⟩])
    (hfits : ∀ read ∈ reads, read.Fits) (more : List Event)
    (hdone : (runTransfer ftp (events ++ more)).transferFile = none) :
    (runTransfer ftp (events ++ more)).disk.files.node path
      = some (.file (baseContent operation (disk.files.node path)
        ++ reads.flatMap SocketRead.bytes)) := by
  obtain ⟨hreceives, -⟩ := Receiver.ends (sound_mapped _ _ h.segment) h.receives hreads hfits (.inl rfl)
    more
  have hsettled := hreceives.phase
  rw [hdone] at hsettled
  rw [hsettled.eof (lastAnswer_concat _ _), gathered, flatMap_bytes_concat reads (.inl rfl)]

end Stages

end FtpSession

section Results

open WfdeFile

variable {ftp : FtpSession} {path : PPath} {operation : FileOperation} {disk : Disk}
  {events : List Event} {reads : List SocketRead} {offered : Nat}

/-- A client that has logged in and gives a command to transfer, with its port open. -/
def transferOf (line : String) : List Event :=
  [.start joeEnv, .written joeEnv true] ++ exchange "USER joe" ++ exchange "TYPE I"
    ++ exchange "PORT 127,0,0,1,4,1" ++ [.request joeEnv (bytes line)]

/-- The turns of the transfer coroutine for these answers. -/
def turns (answers : List Answer) : List Event := answers.map (.transfer joeEnv)

def uploadOf (segmentSize : Nat) (line : String) : FtpSession :=
  (fresh oneMount (oneFileDisk [7, 8]) segmentSize).run (transferOf line)

/-- **Uploads.** An upload that nothing disturbs reads on whatever the socket returns. When it has come
to the end of the data, three more turns of the transfer coroutine end it, and then the file holds the
base content and the bytes of the reads in their order, and nothing else. -/
theorem receiveFile_stores (h : Uploading ftp path operation disk)
    (hreads : socketReads ftp events = reads ++ [⟨offered, .eof⟩])
    (hdata : ∀ read ∈ reads, read.Receives) (more : List Event) :
    ReadsUndisturbed ftp
      ∧ (3 ≤ more.countP Event.isTransfer → (runTransfer ftp (events ++ more)).transferFile = none)
      ∧ ((runTransfer ftp (events ++ more)).transferFile = none →
        (runTransfer ftp (events ++ more)).disk.files.node path
          = some (.file (baseContent operation (disk.files.node path)
            ++ reads.flatMap SocketRead.bytes))) := by
  have hfits : ∀ read ∈ reads, read.Fits := fun read hread => (hdata read hread).fits
  obtain ⟨-, hends⟩ := Receiver.ends (sound_mapped _ _ h.segment) h.receives hreads hfits (.inl rfl) more
  exact ⟨h.readsUndisturbed, fun hturns => ended_of_closing hends hturns, h.stores hreads hfits more⟩

theorem uploading_append :
    Uploading (uploadOf 2 "APPE a") [bytes "srv", bytes "a"] .append (oneFileDisk [7, 8]) where
  phase := rfl
  transfer := rfl
  file := ⟨_, rfl, rfl⟩
  writes := by decide
  segment := by decide

/-- A full and a short read behind two bytes. -/
theorem receiveFile_stores_appended :
    (runTransfer (uploadOf 2 "APPE a") (turns [.done, .done, .done, .data [1, 2], .data [3], .eof]
      ++ turns [.done, .done])).disk.files.node [bytes "srv", bytes "a"]
        = some (.file [7, 8, 1, 2, 3]) := by
  have hreads : socketReads (uploadOf 2 "APPE a")
      (turns [.done, .done, .done, .data [1, 2], .data [3], .eof])
      = [⟨2, .data [1, 2]⟩, ⟨2, .data [3]⟩] ++ [⟨2, .eof⟩] := by decide +kernel
  refine (receiveFile_stores uploading_append hreads ?_ (turns [.done, .done])).2.2 (by decide +kernel)
  rintro read hread
  simp only [List.mem_cons, List.not_mem_nil, or_false] at hread
  rcases hread with rfl | rfl
  · exact ⟨[1, 2], rfl, by decide, by decide⟩
  · exact ⟨[3], rfl, by decide, by decide⟩

/-- **Failed uploads.** When the last read of an upload has failed, the file holds the base content
and the bytes of the other reads, and nothing else, if and only if one of them has left a part of the
buffer that it was offered. Otherwise the padding stays. -/
theorem receiveFile_failed_iff (h : Uploading ftp path operation disk)
    (hreads : socketReads ftp events = reads ++ [⟨offered, .failed⟩])
    (hdata : ∀ read ∈ reads, read.Receives) (more : List Event)
    (hdone : (runTransfer ftp (events ++ more)).transferFile = none) :
    (runTransfer ftp (events ++ more)).disk.files.node path
        = some (.file (baseContent operation (disk.files.node path)
          ++ reads.flatMap SocketRead.bytes))
      ↔ ∃ read ∈ reads, read.bytes.length < read.offered := by
  rw [h.failed_iff hreads (fun read hread => (hdata read hread).fits) more hdone]
  exact exists_congr fun read => and_congr_right fun hread => (hdata read hread).isShort_iff

theorem receiveFile_failed_iff_short :
    (runTransfer (uploadOf 2 "APPE a") (turns [.done, .done, .done, .data [3], .failed]
      ++ turns [.done])).disk.files.node [bytes "srv", bytes "a"] = some (.file [7, 8, 3]) := by
  have hreads : socketReads (uploadOf 2 "APPE a")
      (turns [.done, .done, .done, .data [3], .failed])
      = [⟨2, .data [3]⟩] ++ [⟨2, .failed⟩] := by decide +kernel
  have hdata : ∀ read ∈ [(⟨2, .data [3]⟩ : SocketRead)], read.Receives := by
    rintro read hread
    obtain rfl := List.mem_singleton.mp hread
    exact ⟨[3], rfl, by decide, by decide⟩
  exact (receiveFile_failed_iff uploading_append hreads hdata (turns [.done])
    (by decide +kernel)).mpr ⟨_, List.mem_singleton_self _, by decide⟩

/-- A connection that is reset before it has brought a byte leaves a file of padding. -/
theorem not_receiveFile_failed_reset :
    let ftp := uploadOf 4096 "STOR a"
    let events := turns [.done, .done, .done, .failed]
    Uploading ftp [bytes "srv", bytes "a"] .write (oneFileDisk [7, 8])
      ∧ socketReads ftp events = [] ++ [⟨4096, .failed⟩]
      ∧ (runTransfer ftp (events ++ turns [.done])).transferFile = none
      ∧ (runTransfer ftp (events ++ turns [.done])).disk.files.node [bytes "srv", bytes "a"]
        ≠ some (.file []) := by
  intro ftp events
  have huploading : Uploading ftp [bytes "srv", bytes "a"] .write (oneFileDisk [7, 8]) :=
    ⟨rfl, rfl, ⟨_, rfl, rfl⟩, by decide, by decide⟩
  have hreads : socketReads ftp events = [] ++ [⟨4096, .failed⟩] := by decide +kernel
  have hdone : (runTransfer ftp (events ++ turns [.done])).transferFile = none := by decide +kernel
  refine ⟨huploading, hreads, hdone, fun hempty => ?_⟩
  obtain ⟨_, hread, -⟩ := (huploading.failed_iff hreads (by simp) (turns [.done]) hdone).mp hempty
  cases hread

end Results

end Wfde
