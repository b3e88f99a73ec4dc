import Wfde.Lib.Lines
import Wfde.Proof.LineWidths
import Wfde.Proof.ServedTransfers

/-!
# Listings on the wire

What a client reads of a listing that a session sends. Every entry that is shown has its line, in the
order of the directory, whatever the type of the transfer; and of a listing that is cut off every line
that has come to its end is as it should be.
-/

namespace Wfde

open Effect FtpSession Separation

/-- The lines of a text that have come to their end, with their end. -/
def wireLines (wire : Bytes) : List Bytes := (Lines.terminated lf wire).map (· ++ [lf])

section Wire

variable {ι : Type} {items : List ι} {text : ι → Bytes}

theorem lf_not_mem_line {line : Bytes} (h : IsLineText line) : lf ∉ line ++ [cr] := by
  intro hmem
  rcases List.mem_append.mp hmem with hline | hcr
  · exact (h lf hline).2 rfl
  · exact absurd (List.mem_singleton.mp hcr) (by decide)

theorem wireLines_flatMap (h : ∀ item ∈ items, IsLineText (text item)) :
    wireLines (items.flatMap fun item => text item ++ crlf)
      = items.map fun item => text item ++ crlf := by
  have hcrlf : (fun item => text item ++ crlf) = fun item => (text item ++ [cr]) ++ [lf] := by
    funext item
    rw [List.append_assoc]
    rfl
  have hlines : ∀ item ∈ items, lf ∉ text item ++ [cr] := fun item hitem =>
    lf_not_mem_line (h item hitem)
  rw [wireLines, hcrlf, Lines.terminated_flatMap hlines, List.map_map]
  rfl

theorem wireLines_prefix {wire whole : Bytes} (h : wire <+: whole) :
    wireLines wire <+: wireLines whole := (Lines.terminated_prefix h).map _

theorem toWire_line {line : Bytes} (h : IsLineText line) :
    File.toWire (line ++ crlf) = line ++ crlf := by
  have hplain : ∀ c ∈ line, (if c = cr then [] else if c = lf then [cr, lf] else [c]) = [c] := by
    intro c hc
    rw [if_neg (h c hc).1, if_neg (h c hc).2]
  rw [File.toWire, List.flatMap_append, List.flatMap_congr hplain, List.flatMap_singleton']
  rfl

/-- Lines are the same in either type. -/
theorem asSent_lines (type : TransferType) (h : ∀ item ∈ items, IsLineText (text item)) :
    asSent type (items.flatMap fun item => text item ++ crlf)
      = items.flatMap fun item => text item ++ crlf := by
  unfold asSent
  split
  · rfl
  · have hlines : ∀ item ∈ items, File.toWire (text item ++ crlf) = text item ++ crlf :=
      fun item hitem => toWire_line (h item hitem)
    rw [← File.toWire_eq_crlfText, File.toWire, List.flatMap_assoc]
    exact List.flatMap_congr hlines

end Wire

namespace LsLongFormat

/-- The format, for a line in a memory. -/
def format (self : LsLongFormat) (gmtime : Gmtime) (memory : Nat → UInt8) : Format where
  calculateSize := calculateSize
  printIt entry := (self.printIt gmtime entry).onto memory

/-- An entry that fits its columns. -/
structure Printable (gmtime : Gmtime) (entry : Entry) : Prop where
  name : IsLineText entry.name
  size : entry.st.size < 2 ^ 63
  digits : entry.st.isDirectory = false → entry.st.size < 10 ^ 14
  year : 0 ≤ (gmtime.tm entry.st.mtime).year + 1900 ∧ (gmtime.tm entry.st.mtime).year + 1900 < 10000

variable {gmtime : Gmtime} {self : LsLongFormat} {memory : Nat → UInt8} {entry : Entry}

/-- The line without its end. -/
def lineOf (self : LsLongFormat) (gmtime : Gmtime) (entry : Entry) : Bytes :=
  (columns self entry (gmtime.tm entry.st.mtime)).text entry.name

/-- Of the times only that of the entry matters. -/
theorem printIt_congr {gmtime' : Gmtime} (h : gmtime'.tm entry.st.mtime = gmtime.tm entry.st.mtime) :
    self.printIt gmtime' entry = self.printIt gmtime entry := by
  rw [printIt_tm, printIt_tm, h]

theorem printIt_format (h : Printable gmtime entry) :
    (self.format gmtime memory).printIt entry = self.lineOf gmtime entry ++ crlf
      ∧ ((self.format gmtime memory).printIt entry).length ≤ calculateSize entry := by
  let tm := gmtime.tm entry.st.mtime
  let gmtime' : Gmtime := fun _ => some tm
  have hsame : self.printIt gmtime' entry = self.printIt gmtime entry := printIt_congr rfl
  have hholds : (self.printIt gmtime' entry).Holds (self.lineOf gmtime entry ++ crlf) :=
    holds_printIt rfl h.year h.size h.digits
  have hyears : IntYears gmtime' := by
    intro time other hother
    have hyear := h.year
    obtain rfl : tm = other := Option.some.inj hother
    constructor
    · exact le_trans (by decide) (neg_le_iff_add_nonneg.mpr hyear.1)
    · exact lt_trans (lt_sub_iff_add_lt.mpr hyear.2) (by decide)
  have hwithin : (self.printIt gmtime' entry).Within (calculateSize entry) :=
    within_printIt hyears (h.size.trans (by decide))
  rw [hsame] at hholds hwithin
  have hprinted : (self.format gmtime memory).printIt entry = self.lineOf gmtime entry ++ crlf :=
    hholds.onto memory
  refine ⟨hprinted, ?_⟩
  rw [hprinted, ← hholds.pos_eq]
  exact hwithin.pos_le

theorem isLineText_lineOf (h : Printable gmtime entry) : IsLineText (self.lineOf gmtime entry) :=
  isWords_columns.isLineText h.name

/-- What a client reads of the line. -/
def readOf (self : LsLongFormat) (gmtime : Gmtime) (entry : Entry) : LsLine :=
  printed self entry (gmtime.tm entry.st.mtime)

theorem parseLs_lineOf (h : Printable gmtime entry) :
    parseLs (self.lineOf gmtime entry ++ crlf) = some (self.readOf gmtime entry) :=
  parseLs_columns h.name

end LsLongFormat

/-- A handled request to list a directory, with what the listing finds there. -/
structure FtpSession.Lists (ftp : FtpSession) (event : Event) (args : ListArgs) (directory : Directory)
    (path : Path) : Prop where
  handled : ∃ entry disk fuel buffers, ftp.handlerOf event = some entry
    ∧ entry.cmd.listArgs entry.param = some args ∧ entry.cmd ≠ .stat
    ∧ (ftp.session.getPathForListing args.vpath).run ftp.disk = .ok path disk
    ∧ WfdeFtpList.readUntilEof directory.host fuel
      (directory.listing path (ftp.asked args).state) = some buffers
    ∧ entry.env.listing args.format path (ftp.asked args).state = .ok buffers

/-- The entries that are shown to the session. -/
def FtpSession.listed (ftp : FtpSession) (args : ListArgs) (directory : Directory) (path : Path) :
    List Entry := directory.shown path (ftp.asked args).state

namespace ServedSessions

variable {disk : Disk} {id : Uuid} {event asked : Event} {ftp : FtpSession} {args : ListArgs}
  {directory : Directory} {path : Path} {before during : List (Uuid × ServerEvent)}

/-- What a client has read so far of the lines that have come to their end. -/
structure ReadsLines {β : Type} (read : Bytes → β) (ftp : FtpSession) (lines : List β)
    (left : FtpSession) (wire : Bytes) : Prop where
  sent : left.sent = ftp.sent ++ wire
  part : (wireLines wire).map read <+: lines
  whole : ∀ transfer, left.transferFile = some (.shuttingDown transfer) →
    (wireLines wire).map read = lines

theorem ReadsLines.map {β : Type} {lines : List Bytes} {left : FtpSession} {wire : Bytes}
    (h : ReadsLines (fun line => line) ftp lines left wire) (read : Bytes → β) :
    ReadsLines read ftp (lines.map read) left wire := by
  have hid : (wireLines wire).map (fun line => line) = wireLines wire := List.map_id _
  refine ⟨h.sent, ?_, fun transfer hshut => ?_⟩
  · rw [← hid]
    exact h.part.map read
  · rw [← h.whole transfer hshut, hid]

/-- **Listings arrive line by line.** -/
theorem lines_arrive {text : Entry → Bytes} (hfinds : Finds disk before id event ftp asked)
    (hlists : Lists ftp asked args directory path)
    (hlives : Lives id (requested disk before id event) during)
    (hlines : ∀ entry ∈ ftp.listed args directory path,
      directory.format.printIt entry = text entry ++ crlf ∧ IsLineText (text entry)
        ∧ (directory.format.printIt entry).length ≤ directory.format.calculateSize entry
        ∧ directory.format.calculateSize entry < directory.buffer.length) :
    ∃ left wire, ((requested disk before id event).run during).process id = some left
      ∧ ReadsLines (fun line => line) ftp
        ((ftp.listed args directory path).map fun entry => text entry ++ crlf) left.ftp wire := by
  obtain ⟨entry, disk', fuel, buffers, hhandler, hargs, hcmd, hpath, hread, hlisting⟩ := hlists.handled
  let shown := ftp.listed args directory path
  have hwhole : buffers.flatten = shown.flatMap fun entry => text entry ++ crlf := by
    rw [Directory.flatten_of_readUntilEof hread fun entry hentry => (hlines entry hentry).2.2]
    exact List.flatMap_congr fun entry hentry => (hlines entry hentry).1
  have htexts : ∀ entry ∈ shown, IsLineText (text entry) := fun entry hentry =>
    (hlines entry hentry).2.1
  have hretrieves := Retrieves.listing hhandler hargs hcmd hpath hlisting
  rw [hwhole, asSent_lines _ htexts] at hretrieves
  obtain ⟨left, wire, hleft, hsends, -⟩ := hfinds.sends hretrieves (fun _ hnone => by cases hnone)
    (List.append_nil _).symm hlives
  have hid : (wireLines wire).map (fun line => line) = wireLines wire := List.map_id _
  have hpart := wireLines_prefix hsends.part
  rw [wireLines_flatMap htexts] at hpart
  refine ⟨left, wire, hleft, hsends.sent, by rwa [hid], fun transfer hshut => ?_⟩
  rw [hid, hsends.whole transfer hshut, wireLines_flatMap htexts]

/-- **LIST from end to end.** A session lists a directory while the other sessions do what they like.
If the entries that are shown fit their columns and the buffer, every line that a client has got to its
end is read as what the entry has been printed as, in the order of the directory and whatever the type
of the transfer. When the data connection is shut down these are all. -/
theorem list_arrives (gmtime : Gmtime) (long : LsLongFormat) (memory : Nat → UInt8)
    (hfinds : Finds disk before id event ftp asked) (hlists : Lists ftp asked args directory path)
    (hformat : directory.format = long.format gmtime memory)
    (hlives : Lives id (requested disk before id event) during)
    (hentries : ∀ entry ∈ ftp.listed args directory path, LsLongFormat.Printable gmtime entry
      ∧ LsLongFormat.calculateSize entry < directory.buffer.length) :
    ∃ left wire, ((requested disk before id event).run during).process id = some left
      ∧ ReadsLines parseLs ftp
        ((ftp.listed args directory path).map fun entry => some (long.readOf gmtime entry)) left.ftp
          wire := by
  have hlines : ∀ entry ∈ ftp.listed args directory path,
      directory.format.printIt entry = long.lineOf gmtime entry ++ crlf
        ∧ IsLineText (long.lineOf gmtime entry)
        ∧ (directory.format.printIt entry).length ≤ directory.format.calculateSize entry
        ∧ directory.format.calculateSize entry < directory.buffer.length := by
    intro entry hentry
    obtain ⟨hprintable, hroom⟩ := hentries entry hentry
    obtain ⟨hprinted, hsize⟩ := LsLongFormat.printIt_format hprintable
    rw [hformat]
    exact ⟨hprinted, LsLongFormat.isLineText_lineOf hprintable, hsize, hroom⟩
  obtain ⟨left, wire, hleft, hreads⟩ := lines_arrive hfinds hlists hlives hlines
  have hparsed : ((ftp.listed args directory path).map fun entry =>
        long.lineOf gmtime entry ++ crlf).map parseLs
      = (ftp.listed args directory path).map fun entry => some (long.readOf gmtime entry) := by
    rw [List.map_map]
    exact List.map_congr_left fun entry hentry => LsLongFormat.parseLs_lineOf (hentries entry hentry).1
  rw [← hparsed]
  exact ⟨left, wire, hleft, hreads.map parseLs⟩

/-- A host on which `joe` may list the directory `srv`. -/
def listHost : WfdeHost :=
  { joeHost with authManager := AuthManagerImpl.assign {} (bytes "joe") ⟨bytes "joe", [], openMount⟩ }

/-- It has two files. -/
def twoFilesListed : Directory where
  host := ⟨fun path => { size := (path.getLastD []).length }, fun name => name⟩
  names := [bytes "a", bytes "notes"]
  vpaths := []
  buffer := List.replicate 80 0
  format := LsLongFormat.format (.make 0) (fun _ => none) fun _ => 0

/-- Whatever is listed, it is what the constructor of this listing makes of it. -/
def listEnv : Env :=
  { joeEnv with
    listing := fun _ path state =>
      match WfdeFtpList.readUntilEof twoFilesListed.host 5 (twoFilesListed.listing path state) with
      | some buffers => .ok buffers
      | none => .error .systemError }

theorem listing_listEnv (users : AuthManagerImpl) (format : ListFormat) {path : Path}
    {state : FtpState} {buffers : List Bytes}
    (h : WfdeFtpList.readUntilEof twoFilesListed.host 5 (twoFilesListed.listing path state)
      = some buffers) : (listEnv.against users).listing format path state = .ok buffers := by
  unfold listEnv Env.against
  dsimp only
  rw [h]

/-- `joe` logs in there and is ready for a transfer. -/
def listJoins : List (Uuid × ServerEvent) :=
  (.connected listHost true 2
    :: (greeted ++ exchange "PORT 127,0,0,1,4,1").map ServerEvent.session).map (Prod.mk 1)

theorem exists_listed {session : Session} {vpath : Bytes} {p : Path → Bool}
    (h : (match (session.getPathForListing vpath).run disk with
      | .ok path _ => p path
      | .error _ _ => false) = true) :
    ∃ path disk', (session.getPathForListing vpath).run disk = .ok path disk' ∧ p path = true := by
  cases hrun : (session.getPathForListing vpath).run disk with
  | ok path disk' =>
      rw [hrun] at h
      exact ⟨path, disk', rfl, h⟩
  | error e disk' =>
      rw [hrun] at h
      cases h

theorem list_arrives_served :
    ∃ left wire, ((requested rootDisk listJoins 1 (.request listEnv (bytes "LIST"))).run
        (goesOnBeside [.done, .done, .done, .done, .done])).process 1 = some left
      ∧ ReadsLines parseLs (found rootDisk listJoins 1)
        ([⟨bytes "a", { size := 1 }⟩, ⟨bytes "notes", { size := 5 }⟩].map fun entry =>
          some ((LsLongFormat.make 0).readOf (fun _ => none) entry)) left.ftp wire := by
  have hfinds : Finds rootDisk listJoins 1 (.request listEnv (bytes "LIST"))
      (found rootDisk listJoins 1)
      ((Event.request listEnv (bytes "LIST")).against listHost.authManager) :=
    finds_found (by decide +kernel) (fun _ _ _ hmem => eq_of_connected hmem) _
  obtain ⟨path, disk', hpath, hchecked⟩ :
      ∃ path disk', ((found rootDisk listJoins 1).session.getPathForListing []).run
          (found rootDisk listJoins 1).disk = .ok path disk'
        ∧ decide ((found rootDisk listJoins 1).listed {} twoFilesListed path
            = [⟨bytes "a", { size := 1 }⟩, ⟨bytes "notes", { size := 5 }⟩]
          ∧ (WfdeFtpList.readUntilEof twoFilesListed.host 5 (twoFilesListed.listing path
            ((found rootDisk listJoins 1).asked {}).state)).isSome = true) = true := by
    apply exists_listed
    decide +kernel
  obtain ⟨hshown, hread⟩ := of_decide_eq_true hchecked
  obtain ⟨buffers, hbuffers⟩ := Option.isSome_iff_exists.mp hread
  have hlisting := listing_listEnv listHost.authManager ({} : ListArgs).format hbuffers
  have hlists : Lists (found rootDisk listJoins 1)
      ((Event.request listEnv (bytes "LIST")).against listHost.authManager) {} twoFilesListed path :=
    ⟨⟨listEnv.against listHost.authManager, .list, [], found rootDisk listJoins 1⟩, disk', 5,
      buffers, handlerOf_request (by decide +kernel), by decide, by decide, hpath, hbuffers, hlisting⟩
  have hentries : ∀ entry ∈ (found rootDisk listJoins 1).listed {} twoFilesListed path,
      LsLongFormat.Printable (fun _ => none) entry
        ∧ LsLongFormat.calculateSize entry < twoFilesListed.buffer.length := by
    rw [hshown]
    intro entry hentry
    rcases List.mem_pair.mp hentry with rfl | rfl
    · exact ⟨⟨by decide, by decide, fun _ => by decide, by decide⟩, by decide⟩
    · exact ⟨⟨by decide, by decide, fun _ => by decide, by decide⟩, by decide⟩
  have hlives : Lives 1 (requested rootDisk listJoins 1 (.request listEnv (bytes "LIST")))
      (goesOnBeside [.done, .done, .done, .done, .done]) := by decide +kernel
  have harrives := list_arrives (fun _ => none) (.make 0) (fun _ => 0) hfinds hlists rfl hlives
    hentries
  rwa [hshown] at harrives

end ServedSessions

end Wfde
