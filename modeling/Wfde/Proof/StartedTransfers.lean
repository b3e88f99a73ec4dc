import Wfde.Proof.AsciiUploads
import Wfde.Proof.HiddenFiles
import Wfde.Proof.Restart

/-!
# Transfers from their request on

A command that starts a transfer leaves the work to the coroutine: the file that it has opened, or the
listing that it has made, and the direction. So a request that is handled is the start of an upload or
of an outgoing transfer, in binary type or in ASCII type.
-/

namespace Wfde

open Effect FtpSession

namespace FtpSession

section Start

variable {ftp : FtpSession} {event : Event} {entry : Handled}

theorem closed_of_handlerOf (htidy : Tidy ftp) (hhandler : ftp.handlerOf event = some entry)
    (hcmd : entry.cmd.mustNotBeInTransfer = true) : ftp.currentFile = none := by
  apply htidy.closed
  by_contra hphase
  have hnot := (accepts_of_handlerOf hhandler).notInTransfer hcmd
  rw [FtpState.isInTransfer, bne_eq_false_iff_eq] at hnot
  exact htidy.busy hphase hnot

/-- The work of a session whose handler has just started a transfer. -/
theorem work_of_started {asked : FtpSession} {file : RawFile}
    (hhandler : ftp.handlerOf event = some entry) (hafter : entry.after = asked.started file)
    (hclosed : asked.currentFile = none) :
    (ftp.step event).work =
      { transferFile := some .spawned
        currentFile := some (if asked.state.getType = .bin then .raw file else .ascii file [])
        disk := asked.disk
        sent := asked.sent
        transfer := if file.getOperation = .read then .outgoing else .incoming
        rest := asked.state.rest } := by
  obtain ⟨prev, hloop, -⟩ := sameLoop_frame.of_handlerOf hhandler
  rw [hloop.work, hafter]
  unfold work started closedDisk
  simp only [hclosed]

end Start

end FtpSession

/-- The path and the operation with which a command opens the file that it transfers. -/
def FtpCmd.opens (env : Env) (param : Bytes) : FtpCmd → Option (Bytes × FileOperation)
  | retr => some (param, .read)
  | stor => some (param, .write)
  | stou => some (env.uuid, .writeNew)
  | appe => some (param, .append)
  | _ => none

theorem FtpCmd.onCmd_opens {cmd : FtpCmd} {env : Env} {param vpath : Bytes}
    {operation : FileOperation} (h : cmd.opens env param = some (vpath, operation)) :
    cmd.mustNotBeInTransfer = true ∧ ∃ refuse refusal,
      cmd.onCmd env param = openAndTransfer vpath refuse refusal operation := by
  cases cmd with
  | retr | stor | stou | appe =>
      obtain ⟨rfl, rfl⟩ := Prod.mk.inj (Option.some.inj h)
      exact ⟨rfl, _, _, rfl⟩
  | _ => cases h

/-- The handler has ended without a reply. -/
def Handled.isSilent (entry : Handled) : Bool :=
  match entry.result with
  | .ok none _ => true
  | _ => false

theorem Handled.result_of_isSilent {entry : Handled} (h : entry.isSilent = true) :
    entry.result = .ok none entry.after := by
  unfold Handled.isSilent at h
  split at h
  · rename_i left hresult
    have hafter : entry.after = left := after_of_ok hresult
    rw [hresult, hafter]
  · cases h

namespace FtpSession

/-- A handled request that starts to transfer the file at the path. -/
structure Moves (ftp : FtpSession) (event : Event) (path : PPath) (operation : FileOperation) :
    Prop where
  handled : ∃ entry vpath filePath, ftp.handlerOf event = some entry
    ∧ entry.cmd.opens entry.env entry.param = some (vpath, operation)
    ∧ entry.isSilent = true ∧ ftp.session.getPath vpath .file = .ok filePath
    ∧ filePath.ppath = path
  segment : 0 < ftp.segmentSize

section Moves

variable {ftp : FtpSession} {event : Event} {path : PPath} {operation : FileOperation}

theorem moves_iff :
    Moves ftp event path operation ↔ 0 < ftp.segmentSize
      ∧ (ftp.handlerOf event).any fun entry =>
        entry.isSilent && (entry.cmd.opens entry.env entry.param).any fun asked =>
          asked.2 == operation
            && (ftp.session.getPath asked.1 .file).toOption.any (·.ppath == path) := by
  simp only [Option.any_eq_true, Bool.and_eq_true, beq_iff_eq]
  constructor
  · rintro ⟨⟨entry, vpath, filePath, hhandler, hopens, hsilent, hpath, hppath⟩, hsegment⟩
    refine ⟨hsegment, entry, hhandler, hsilent, (vpath, operation), hopens, rfl, filePath, ?_, hppath⟩
    rw [hpath]
    rfl
  · rintro ⟨hsegment, entry, hhandler, hsilent, ⟨vpath, _⟩, hopens, rfl, filePath, hpath, hppath⟩
    refine ⟨⟨entry, vpath, filePath, hhandler, hopens, hsilent, ?_, hppath⟩, hsegment⟩
    cases hresolved : ftp.session.getPath vpath .file with
    | ok resolved =>
        rw [hresolved] at hpath
        exact congrArg Except.ok (Option.some.inj hpath)
    | error e =>
        rw [hresolved] at hpath
        cases hpath

instance : Decidable (Moves ftp event path operation) := decidable_of_iff _ moves_iff.symm

/-- **From the request to the transfer.** -/
theorem Moves.started (h : Moves ftp event path operation) (htidy : Tidy ftp) :
    ∃ file disk, (WfdeFile.make ftp.segmentSize path operation).run ftp.disk = .ok file disk
      ∧ (ftp.step event).segmentSize = ftp.segmentSize
      ∧ (ftp.step event).work =
        { transferFile := some .spawned
          currentFile := some
            (if ftp.state.getType = .bin then .raw (.mapped file) else .ascii (.mapped file) [])
          disk
          sent := ftp.sent
          transfer := if file.operation = .read then .outgoing else .incoming
          rest := ftp.state.rest } := by
  obtain ⟨entry, vpath, filePath, hhandler, hopens, hsilent, hpath, rfl⟩ := h.handled
  obtain ⟨line, -, hbefore, -, -⟩ := handlerOf_eq_some hhandler
  obtain ⟨hcmd, refuse, refusal, hruns⟩ := FtpCmd.onCmd_opens hopens
  obtain ⟨prev, hmachine, -⟩ := sameMachine_loop.of_handlerOf hhandler
  have hclosed := closed_of_handlerOf htidy hhandler hcmd
  have hresult := Handled.result_of_isSilent hsilent
  have hrun : (openAndTransfer vpath refuse refusal operation).run entry.start
      = .ok none entry.after := by
    rw [← hresult, Handled.result, hruns]
  have hkept := (sameMachine_frame entry.cmd).onCmd entry.env entry.param entry.start
  have hsegment : (ftp.step event).segmentSize = ftp.segmentSize := by
    calc
      (ftp.step event).segmentSize = entry.after.segmentSize := hmachine
      _ = entry.start.segmentSize := hkept
      _ = ftp.segmentSize := by rw [Handled.start, hbefore]
  rw [Handled.start, hbefore] at hrun
  obtain ⟨path', file, disk, hpath', hmake, hafter⟩ := openAndTransfer_run hrun
  obtain rfl : path' = filePath := Except.ok.inj (hpath'.symm.trans hpath)
  exact ⟨file, disk, hmake, hsegment, work_of_started hhandler hafter hclosed⟩

theorem Moves.segment_step (h : Moves ftp event path operation) (htidy : Tidy ftp) :
    0 < (ftp.step event).segmentSize := by
  obtain ⟨_, _, -, hsegment, -⟩ := h.started htidy
  rw [hsegment]
  exact h.segment

/-- **From the request to the upload.** -/
theorem Moves.uploads (h : Moves ftp event path operation) (hwrites : operation ≠ .read) (htidy : Tidy ftp) :
    if ftp.state.getType = .bin then Uploading (ftp.step event) path operation ftp.disk
      else AsciiUploading (ftp.step event) path operation ftp.disk := by
  obtain ⟨file, disk, hmake, hsegment, hwork⟩ := h.started htidy
  obtain ⟨-, -, -, hoperation, -, -⟩ := WfdeFile.make_holds hwrites h.segment hmake
  have hincoming : file.operation ≠ .read := by rwa [hoperation]
  rw [if_neg hincoming] at hwork
  have hphase : (ftp.step event).transferFile = some .spawned := congrArg Work.transferFile hwork
  have htransfer : (ftp.step event).state.transfer = .incoming := congrArg Work.transfer hwork
  have hdisk : (ftp.step event).disk = disk := congrArg Work.disk hwork
  have hcurrent : (ftp.step event).currentFile
      = some (if ftp.state.getType = .bin then .raw (.mapped file) else .ascii (.mapped file) []) :=
    congrArg Work.currentFile hwork
  have hmade : (WfdeFile.make (ftp.step event).segmentSize path operation).run ftp.disk
      = .ok file (ftp.step event).disk := by
    rw [hsegment, hdisk]
    exact hmake
  have hpositive := h.segment_step htidy
  split
  · rename_i hbinary
    rw [if_pos hbinary] at hcurrent
    exact ⟨hphase, htransfer, ⟨file, hmade, hcurrent⟩, hwrites, hpositive⟩
  · rename_i hascii
    rw [if_neg hascii] at hcurrent
    exact ⟨hphase, htransfer, ⟨file, hmade, hcurrent⟩, hwrites, hpositive⟩

end Moves

section Commands

open Handler

variable {ftp : FtpSession} {event : Event} {entry : Handled} {source : Option PPath}

/-- What goes over the data connection for a text. -/
def asSent (type : TransferType) (text : Bytes) : Bytes :=
  if type = .bin then text else File.crlfText text

/-- A handled request that starts to send a file from its start, or a listing; with the path of the
file, the bytes to be sent and a bound on the reads. -/
inductive Retrieves (ftp : FtpSession) (event : Event) : Option PPath → Bytes → Nat → Prop
  | file {path : PPath} {content : Bytes} (hmoves : Moves ftp event path .read)
      (hnode : ftp.disk.files.node path = some (.file content)) :
      Retrieves ftp event (some path) (asSent ftp.state.getType content) content.length
  | listing {entry : Handled} {args : ListArgs} {path : Path} {disk : Disk} {buffers : List Bytes}
      (hhandler : ftp.handlerOf event = some entry)
      (hargs : entry.cmd.listArgs entry.param = some args) (hcmd : entry.cmd ≠ .stat)
      (hpath : (ftp.session.getPathForListing args.vpath).run ftp.disk = .ok path disk)
      (hlisting : entry.env.listing args.format path (ftp.asked args).state = .ok buffers) :
      Retrieves ftp event none
        (asSent (if entry.cmd = .mlsd then .bin else ftp.state.getType) buffers.flatten)
        (buffers.length + 1)

theorem listAndTransfer_run {env : Env} {format : ListFormat} {vpath : Bytes} {path : Path}
    {disk : Disk} {buffers : List Bytes} (prepare : FtpState → FtpState)
    (hpath : (ftp.session.getPathForListing vpath).run ftp.disk = .ok path disk)
    (hlisting : env.listing format path ftp.state = .ok buffers) :
    (listAndTransfer env format vpath prepare).run ftp
      = .ok none (started
          { ftp with
            calls := ftp.calls ++ [.getPathForListing vpath] ++ [.listDirectory format path]
            disk
            state := prepare ftp.state } (.listing buffers false)) := by
  let looked : FtpSession :=
    { ftp with calls := ftp.calls ++ [.getPathForListing vpath], disk }
  let listed : FtpSession := { looked with calls := looked.calls ++ [.listDirectory format path] }
  have hlook : (getPathForListing vpath).run ftp = .ok path looked :=
    onSession_eq_ok.mpr ⟨disk, hpath, rfl⟩
  have hlist : (listDirectory env format path).run looked = .ok buffers listed := by
    change (lift (env.listing format path ftp.state)).run listed = _
    rw [hlisting]
    rfl
  refine tryCatch_of_ok (bind_eq_ok.mpr ⟨path, looked, hlook, ?_⟩)
  refine bind_eq_ok.mpr ⟨buffers, listed, hlist, ?_⟩
  refine bind_eq_ok.mpr ⟨(), _, rfl, ?_⟩
  exact bind_eq_ok.mpr ⟨(), _, startTransfer_run _ _, rfl⟩

/-- A file as a transfer of that type wraps it. -/
theorem hasLeft_wrapped {file : RawFile} {disk : Disk} {text : Bytes} (type : TransferType)
    (h : file.HasLeft disk source text) :
    (if type = .bin then File.raw file else .ascii file []).HasLeft disk source (asSent type text)
      ∧ (if type = .bin then File.raw file else .ascii file []).inner = file := by
  unfold asSent
  split
  · exact ⟨⟨text, h, rfl⟩, rfl⟩
  · exact ⟨⟨text, h, File.toWire_eq_crlfText text⟩, rfl⟩

/-- A transfer that is about to send the whole behind what has been sent before. -/
structure Dispatched (source : Option PPath) (before whole : Bytes) (turns : Nat) (ftp : FtpSession) :
    Prop where
  sent : ftp.sent = before
  serving : (serving source (before ++ whole) turns).At ftp

theorem dispatched_of_work {file : RawFile} {text : Bytes} {reads rest : Nat} {type : TransferType}
    {disk : Disk}
    (hwork : (ftp.step event).work =
      { transferFile := some .spawned
        currentFile := some (if type = .bin then .raw file else .ascii file [])
        disk
        sent := ftp.sent
        transfer := .outgoing
        rest })
    (hleft : file.HasLeft disk source text) (hreads : file.readsLeft ≤ reads) :
    Dispatched source ftp.sent (asSent type text) (reads + 8) (ftp.step event) := by
  have hphase : (ftp.step event).transferFile = some .spawned := congrArg Work.transferFile hwork
  have hcurrent := congrArg Work.currentFile hwork
  have hdisk : (ftp.step event).disk = disk := congrArg Work.disk hwork
  obtain ⟨hwrapped, hinner⟩ := hasLeft_wrapped type hleft
  have hsent : (ftp.step event).sent = ftp.sent := congrArg Work.sent hwork
  refine ⟨hsent, fun _ => congrArg Work.transfer hwork, ?_⟩
  rw [hphase]
  refine ⟨_, _, hcurrent, by rwa [hdisk], ?_, ?_⟩
  · rw [List.append_nil, hsent]
  · change _ + 8 ≤ reads + 8
    rw [hinner]
    omega

/-- What a listing command dispatches, whatever it has made of its parameter. -/
theorem dispatched_listing {asked : FtpSession} {args : ListArgs} {prepare : FtpState → FtpState}
    {type : TransferType} {path : Path} {disk : Disk} {buffers : List Bytes} (htidy : Tidy ftp)
    (hhandler : ftp.handlerOf event = some entry) (hcmd : entry.cmd.mustNotBeInTransfer = true)
    (hafter : entry.after
      = after (listAndTransfer entry.env args.format args.vpath prepare) asked)
    (hasked : asked = { ftp with calls := [], state := asked.state })
    (htype : (prepare asked.state).getType = type)
    (hpath : (ftp.session.getPathForListing args.vpath).run ftp.disk = .ok path disk)
    (hlisting : entry.env.listing args.format path asked.state = .ok buffers) :
    Dispatched none ftp.sent (asSent type buffers.flatten) (buffers.length + 1 + 8)
      (ftp.step event) := by
  have hsession : asked.session = ftp.session := by rw [hasked]
  have hdisk : asked.disk = ftp.disk := by rw [hasked]
  have hfile : asked.currentFile = ftp.currentFile := by rw [hasked]
  have hsent : asked.sent = ftp.sent := by rw [hasked]
  rw [← hsession, ← hdisk] at hpath
  have hstarted := hafter.trans (after_of_ok (listAndTransfer_run prepare hpath hlisting))
  have hclosed := hfile.trans (closed_of_handlerOf htidy hhandler hcmd)
  have hwork := work_of_started hhandler hstarted hclosed
  rw [htype, hsent] at hwork
  exact dispatched_of_work hwork (.listing buffers) le_rfl

/-- **From the request to the transfer.** -/
theorem Retrieves.dispatched {whole : Bytes} {reads : Nat}
    (h : Retrieves ftp event source whole reads) (htidy : Tidy ftp) :
    Dispatched source ftp.sent whole (reads + 8) (ftp.step event) := by
  cases h with
  | @file path content hmoves hnode =>
      obtain ⟨file, disk, hmake, -, hwork⟩ := hmoves.started htidy
      obtain ⟨rfl, hreading, hpos, hpath, hread⟩ := WfdeFile.make_reading hmoves.segment hnode hmake
      have hwhole := RawFile.HasLeft.mapped hreading
      rw [hpos, List.drop_zero, hpath] at hwhole
      have hreads : file.fileSize - file.pos ≤ content.length := by
        rw [hreading.fileSize]
        exact Nat.sub_le _ _
      rw [hread, if_pos rfl] at hwork
      exact dispatched_of_work hwork hwhole hreads
  | @listing entry args path disk buffers hhandler hargs hcmd hpath hlisting =>
      obtain ⟨line, -, hbefore, -, -⟩ := handlerOf_eq_some hhandler
      let begun : FtpSession := { ftp with calls := [] }
      have hafter : entry.after = after (entry.cmd.onCmd entry.env entry.param) begun := by
        rw [Handled.after, Handled.start, hbefore]
      cases hcase : entry.cmd with
      | list =>
          rw [hcase] at hargs hafter
          have hargs' : parseListLoop {} false entry.param = args := Option.some.inj hargs
          have hparsed : entry.after
              = after (listAndTransfer entry.env args.format args.vpath id) (begun.asked args) := by
            rw [hafter, ← hargs']
            change after (FtpCmdList.onCmd entry.env entry.param) begun = _
            rw [FtpCmdList.onCmd, after_bind_of_ok (parseListArgs_run entry.param begun)]
          exact dispatched_listing htidy hhandler (by rw [hcase]; rfl) hparsed rfl rfl hpath hlisting
      | nlst =>
          rw [hcase] at hargs hafter
          have hargs' : { vpath := entry.param, format := .short } = args := Option.some.inj hargs
          have hlists : entry.after
              = after (listAndTransfer entry.env args.format args.vpath id) begun := by
            rw [hafter, ← hargs']
            rfl
          rw [asked_of_not (by rw [← hargs'])] at hlisting
          exact dispatched_listing htidy hhandler (by rw [hcase]; rfl) hlists rfl rfl hpath hlisting
      | mlsd =>
          rw [hcase] at hargs hafter
          have hargs' : { vpath := entry.param, format := .mlsd } = args := Option.some.inj hargs
          have hlists : entry.after
              = after (listAndTransfer entry.env args.format args.vpath
                fun state => { state with overrideAsBinary := true }) begun := by
            rw [hafter, ← hargs']
            rfl
          rw [asked_of_not (by rw [← hargs'])] at hlisting
          exact dispatched_listing htidy hhandler (by rw [hcase]; rfl) hlists rfl rfl hpath hlisting
      | stat => exact absurd hcase hcmd
      | _ =>
          rw [hcase] at hargs
          cases hargs

end Commands

end FtpSession

end Wfde
