import Wfde.Proof.AtRest
import Wfde.Proof.Download

/-!
# Restarted transfers

REST stores an offset that no transfer looks at. The transfer that follows moves the whole file, so
the offset is honoured only when there is nothing to skip.
-/

namespace Wfde

open Effect FtpSession

section Starting

open Handler

variable {ftp left : FtpSession} {path : Bytes} {operation : FileOperation}

theorem openAndTransfer_run {refuse : FtpState → Bool} {refusal : Bytes}
    (hrun : (openAndTransfer path refuse refusal operation).run ftp = .ok none left) :
    ∃ filePath file disk, ftp.session.getPath path .file = .ok filePath
      ∧ (WfdeFile.make ftp.segmentSize filePath.ppath operation).run ftp.disk = .ok file disk
      ∧ left = FtpSession.started
          { ftp with
            state := { ftp.state with requestedPath := path }
            calls := ftp.calls ++ [.openFile path operation]
            disk } (.mapped file) := by
  let asked : FtpSession := { ftp with state := { ftp.state with requestedPath := path } }
  let body : Handler := do
    let file ← openFile path operation
    startTransfer file
    return none
  replace hrun : (if refuse asked.state then answer .actionNotTaken refusal
      else tryConnect body).run asked = .ok none left := hrun
  split at hrun
  · cases hrun
  · cases hbody : body.run asked with
    | error e last =>
        rw [tryConnect, tryCatch_of_error hbody] at hrun
        cases hrun
    | ok reply last =>
        rw [tryConnect, tryCatch_of_ok hbody] at hrun
        cases hrun
        obtain ⟨raw, opened, hopen, hrest⟩ := bind_eq_ok.mp hbody
        rw [EStateM.run_bind, startTransfer_run] at hrest
        obtain ⟨-, rfl⟩ := pure_eq_ok.mp hrest
        obtain ⟨_, _, hget, hopen⟩ := bind_eq_ok.mp hopen
        cases hget
        obtain ⟨file, _, hsession, hpure⟩ := bind_eq_ok.mp hopen
        obtain ⟨rfl, rfl⟩ := pure_eq_ok.mp hpure
        obtain ⟨disk, hfile, rfl⟩ := onSession_eq_ok.mp hsession
        obtain ⟨filePath, _, hpath, hfile⟩ := bind_eq_ok.mp hfile
        obtain ⟨hresolves, rfl⟩ := lift_eq_ok.mp hpath
        obtain ⟨_, _, hauthorised, hmake⟩ := bind_eq_ok.mp hfile
        obtain ⟨-, rfl⟩ := lift_eq_ok.mp hauthorised
        exact ⟨filePath, file, disk, hresolves, hmake, rfl⟩

end Starting

namespace FtpSession

/-- The page size is the machine's. -/
def SameMachine (before after : FtpSession) : Prop := after.segmentSize = before.segmentSize

instance : Std.Refl SameMachine := ⟨fun _ => rfl⟩

instance : IsTrans FtpSession SameMachine := ⟨fun _ _ _ hab hbc => hbc.trans hab⟩

theorem sameMachine_frame (cmd : FtpCmd) : Frame SameMachine cmd where
  calls _ _ := rfl
  state _ _ _ := rfl
  disk _ _ _ := rfl
  login _ _ _ := rfl
  cwd _ _ _ := rfl
  start _ file ftp := by
    rw [after_startTransfer]
    rfl

theorem sameMachine_loop : LoopFrame SameMachine where
  control _ _ := rfl
  closePending _ := rfl
  socketOpen _ := rfl
  closed _ := rfl
  replies _ _ := rfl
  abortTransfer _ := rfl
  acceptor _ := rfl
  transferSck _ := rfl

/-- A command that is handled and starts to transfer the file at the path in binary type. -/
structure Transfers (cmd : FtpCmd) (ftp : FtpSession) (event : Event) (path : PPath) : Prop where
  handled : ∃ entry left filePath, ftp.handlerOf event = some entry ∧ entry.cmd = cmd
    ∧ entry.result = .ok none left
    ∧ ftp.session.getPath entry.param .file = .ok filePath ∧ filePath.ppath = path
  binary : ftp.state.getType = .bin
  segment : 0 < ftp.segmentSize

section Transfers

variable {ftp : FtpSession} {event : Event} {path : PPath} {cmd : FtpCmd} {content : Bytes}

theorem Transfers.started (h : Transfers cmd ftp event path) (htidy : Tidy ftp)
    {operation : FileOperation} (hcmd : cmd.mustNotBeInTransfer = true)
    (hopens : ∀ env param, ∃ refuse refusal,
      cmd.onCmd env param = openAndTransfer param refuse refusal operation) :
    ∃ file disk, (WfdeFile.make ftp.segmentSize path operation).run ftp.disk = .ok file disk
      ∧ (ftp.step event).segmentSize = ftp.segmentSize
      ∧ (ftp.step event).work =
        { transferFile := some .spawned
          currentFile := some (.raw (.mapped file))
          disk
          sent := ftp.sent
          transfer := if file.operation = .read then .outgoing else .incoming
          rest := ftp.state.rest } := by
  obtain ⟨entry, left, filePath, hhandler, rfl, hresult, hpath, rfl⟩ := h.handled
  obtain ⟨line, -, hbefore, -, -⟩ := handlerOf_eq_some hhandler
  obtain ⟨prev, hloop, -⟩ := sameLoop_frame.of_handlerOf hhandler
  obtain ⟨prev', hmachine, -⟩ := sameMachine_loop.of_handlerOf hhandler
  obtain ⟨refuse, refusal, hcmdRun⟩ := hopens entry.env entry.param
  have hafter : entry.after = left := after_of_ok hresult
  rw [Handled.result, hcmdRun, Handled.start, hbefore] at hresult
  obtain ⟨filePath', file, disk, hpath', hmake, hleft⟩ := openAndTransfer_run hresult
  have hsame : filePath' = filePath := Except.ok.inj (hpath'.symm.trans hpath)
  have hidle : ftp.transferFile = none := by
    by_contra hphase
    have hnot := (accepts_of_handlerOf hhandler).notInTransfer hcmd
    rw [FtpState.isInTransfer, bne_eq_false_iff_eq] at hnot
    exact htidy.busy hphase hnot
  have hclosed : ftp.currentFile = none := htidy.closed hidle
  refine ⟨file, disk, by rw [← hsame]; exact hmake, ?_, ?_⟩
  · have hkept := (sameMachine_frame entry.cmd).onCmd entry.env entry.param entry.start
    calc
      (ftp.step event).segmentSize = entry.after.segmentSize := hmachine
      _ = entry.start.segmentSize := hkept
      _ = ftp.segmentSize := by rw [Handled.start, hbefore]
  · rw [hloop.work, hafter, hleft]
    have hbinary : FtpState.getType { ftp.state with requestedPath := entry.param } = .bin := h.binary
    unfold work FtpSession.started closedDisk
    simp only [hclosed, hbinary, if_true]
    rfl

theorem Transfers.downloading (h : Transfers .retr ftp event path) (htidy : Tidy ftp)
    (hnode : ftp.disk.files.node path = some (.file content)) :
    Downloading (ftp.step event) content ∧ (ftp.step event).sent = ftp.sent := by
  obtain ⟨file, disk, hmake, -, hwork⟩ := h.started htidy rfl fun _ _ => ⟨_, _, rfl⟩
  obtain ⟨rfl, hreading, hpos, -, hread⟩ := WfdeFile.make_reading h.segment hnode hmake
  rw [hread, if_pos rfl] at hwork
  have hdisk : (ftp.step event).disk = ftp.disk := congrArg Work.disk hwork
  refine ⟨⟨congrArg Work.transferFile hwork, congrArg Work.transfer hwork, file,
    congrArg Work.currentFile hwork, ?_, hpos⟩, congrArg Work.sent hwork⟩
  rw [hdisk]
  exact hreading

theorem Transfers.uploading (h : Transfers .stor ftp event path) (htidy : Tidy ftp) :
    Uploading (ftp.step event) path .write ftp.disk := by
  obtain ⟨file, disk, hmake, hsegment, hwork⟩ := h.started htidy rfl fun _ _ => ⟨_, _, rfl⟩
  obtain ⟨-, -, -, hoperation, -, -⟩ := WfdeFile.make_holds (by simp) h.segment hmake
  rw [hoperation, if_neg (by simp)] at hwork
  have hdisk : (ftp.step event).disk = disk := congrArg Work.disk hwork
  refine ⟨congrArg Work.transferFile hwork, congrArg Work.transfer hwork,
    ⟨file, ?_, congrArg Work.currentFile hwork⟩, by simp, by rw [hsegment]; exact h.segment⟩
  rw [hsegment, hdisk]
  exact hmake

theorem rest_runTransfer (h : ftp.transferFile ≠ none) {events : List Event}
    (hdone : (runTransfer ftp events).transferFile = none) :
    (runTransfer ftp events).state.rest = 0 := by
  have hcleared : ∀ ftp event, (ftp.transferFile = none → ftp.state.rest = 0) →
      (stepTransfer ftp event).transferFile = none → (stepTransfer ftp event).state.rest = 0 := by
    intro ftp event hrest hnone
    unfold stepTransfer at hnone ⊢
    split at hnone
    · rename_i halive
      rw [if_pos halive]
      have hends : EndsTransfer ftp event := ⟨by simpa [Option.isSome_iff_ne_none] using halive, hnone⟩
      exact congrArg Marks.rest hends.marks
    · rename_i halive
      rw [if_neg halive]
      exact hrest hnone
  exact Machine.run_induction stepTransfer (fun ftp => ftp.transferFile = none → ftp.state.rest = 0)
    hcleared (fun hnone => absurd hnone h) events hdone

end Transfers

end FtpSession

section Offset

variable {ftp : FtpSession} {offset : Nat} {past : List Handled}

/-- The last REST has been accepted with the offset, and no transfer command has come behind it. -/
inductive Restarts (offset : Nat) : List Handled → Prop
  | accepted (past : List Handled) {rest : Handled} {later : List Handled} {reply : FtpReply}
      (hcmd : rest.cmd = .rest) (hreply : rest.reply = some reply)
      (hcode : reply.code = .fileActionPendingInfo) (hoffset : lexicalCast rest.param = some offset)
      (hlater : ∀ entry ∈ later, entry.cmd ≠ .rest ∧ entry.cmd.startsTransfer = false) :
      Restarts offset (past ++ rest :: later)

theorem restarts_concat {entry : Handled} (h : Restarts offset (past ++ [entry])) :
    (entry.cmd = .rest ∧ (∃ reply, entry.reply = some reply ∧ reply.code = .fileActionPendingInfo)
        ∧ lexicalCast entry.param = some offset)
      ∨ Restarts offset past ∧ entry.cmd ≠ .rest ∧ entry.cmd.startsTransfer = false := by
  generalize hhandlers : past ++ [entry] = handlers at h
  cases h with
  | @accepted before rest later reply hcmd hreply hcode hoffset hlater =>
      rcases List.eq_nil_or_concat later with rfl | ⟨later, last, rfl⟩
      · obtain ⟨-, heq⟩ := List.append_inj' hhandlers rfl
        obtain rfl : entry = rest := List.head_eq_of_cons_eq heq
        exact .inl ⟨hcmd, ⟨reply, hreply, hcode⟩, hoffset⟩
      · rw [List.concat_eq_append, ← List.cons_append, ← List.append_assoc] at hhandlers
        obtain ⟨rfl, heq⟩ := List.append_inj' hhandlers rfl
        obtain rfl : entry = last := List.head_eq_of_cons_eq heq
        have hlast := hlater entry (by simp)
        refine .inr ⟨.accepted before hcmd hreply hcode hoffset fun other hother => ?_, hlast⟩
        exact hlater other (by simp [hother])

theorem rest_of_accepted {param : Bytes} {reply : FtpReply} {left : FtpSession}
    (hrun : (FtpCmdRest.onCmd param).run ftp = .ok (some reply) left)
    (hcode : reply.code = .fileActionPendingInfo) (hoffset : lexicalCast param = some offset) :
    left.state.rest = offset := by
  let cleared : FtpSession := { ftp with state := { ftp.state with rest := 0 } }
  unfold FtpCmdRest.onCmd at hrun
  rw [hoffset] at hrun
  replace hrun : (if offset ≠ 0 ∧ cleared.state.getType ≠ .bin then
      Handler.answer .actionNotTaken restIsBinaryOnly
    else do
      modifyState fun state => { state with rest := offset }
      Handler.answer .fileActionPendingInfo
        (bytes "Restarting at " ++ decimal offset ++ bytes ". Send STOR or RETR.")).run cleared
      = .ok (some reply) left := hrun
  split at hrun
  · obtain ⟨hreply, -⟩ := pure_eq_ok.mp hrun
    obtain rfl := Option.some.inj hreply
    cases hcode
  · obtain ⟨_, _, hset, hrest⟩ := bind_eq_ok.mp hrun
    cases hset
    obtain ⟨-, rfl⟩ := pure_eq_ok.mp hrest
    rfl

/-- The offset waits for the next transfer. -/
structure Carries (past : List Handled) (ftp : FtpSession) : Prop where
  tidy : Tidy ftp
  offset : ∀ offset, Restarts offset past → ftp.state.rest = offset ∧ ftp.transferFile = none

theorem carries_step (h : Carries past ftp) (event : Event) :
    Carries (past ++ (ftp.handlerOf event).toList) (ftp.step event) := by
  refine ⟨h.tidy.step event, fun offset hrestarts => ?_⟩
  cases hhandler : ftp.handlerOf event with
  | some entry =>
      rw [hhandler, Option.toList_some] at hrestarts
      obtain ⟨hstart, hloop⟩ := loops_handler hhandler
      have htouches := touches_onCmd entry.env entry.param entry.cmd entry.start
      have hrest : (ftp.step event).state.rest = entry.after.state.rest :=
        congrArg Marks.rest hloop.marks
      have hphase : (ftp.step event).transferFile = entry.after.transferFile := hloop.transferFile
      have hkept (hstarts : entry.cmd.startsTransfer = false) :
          entry.after.transferFile = ftp.transferFile := by
        rcases htouches.transfer with ⟨hsame, -, -⟩ | ⟨hyes, -, -⟩
        · exact hsame.trans hstart.transferFile
        · rw [hstarts] at hyes
          cases hyes
      rw [hrest, hphase]
      rcases restarts_concat hrestarts with ⟨hcmd, ⟨reply, hreply, hcode⟩, hoffset⟩ |
        ⟨hpast, hcmd, hstarts⟩
      · have hidle : ftp.transferFile = none := by
          by_contra hsome
          have hnot := (accepts_of_handlerOf hhandler).notInTransfer (by rw [hcmd]; rfl)
          rw [FtpState.isInTransfer, bne_eq_false_iff_eq] at hnot
          exact h.tidy.busy hsome hnot
        refine ⟨?_, (hkept (by rw [hcmd]; rfl)).trans hidle⟩
        rw [Handled.reply] at hreply
        cases hresult : entry.result with
        | error e left =>
            rw [hresult] at hreply
            cases hreply
        | ok answered left =>
            rw [hresult] at hreply
            obtain rfl : answered = some reply := hreply
            have hafter : entry.after = left := after_of_ok hresult
            rw [Handled.result, hcmd] at hresult
            rw [hafter]
            exact rest_of_accepted hresult hcode hoffset
      · obtain ⟨hoffset, hidle⟩ := h.offset offset hpast
        have hleaves := (keeps_onCmd entry.env entry.param entry.cmd entry.start).rest hcmd
        refine ⟨?_, (hkept hstarts).trans hidle⟩
        calc
          entry.after.state.rest = entry.start.state.rest := hleaves
          _ = ftp.state.rest := congrArg Marks.rest hstart.marks
          _ = offset := hoffset
  | none =>
      rw [hhandler, Option.toList_none, List.append_nil] at hrestarts
      obtain ⟨hoffset, hidle⟩ := h.offset offset hrestarts
      rcases loops_idle hhandler with hloop | ⟨env, answer, rfl, hstep⟩
      · exact ⟨(congrArg Marks.rest hloop.marks).trans hoffset, hloop.transferFile.trans hidle⟩
      · rw [hstep, resume_of_none hidle]
        exact ⟨hoffset, hidle⟩

theorem carries_run (permissions : Permissions) (disk : Disk) (segmentSize : Nat)
    (events : List Event) : Carries ((fresh permissions disk segmentSize).history events)
      ((fresh permissions disk segmentSize).run events) := by
  refine history_induction Carries (fun _ _ event h => carries_step h event) ⟨?_, ?_⟩ events
  · exact tidy_run permissions disk segmentSize []
  · intro offset hrestarts
    generalize hhandlers : ([] : List Handled) = handlers at hrestarts
    cases hrestarts with
    | accepted before _ _ _ _ _ => simp at hhandlers

end Offset

section Results

variable {content : Bytes} {offset : Nat}

theorem append_drop_eq_iff (hle : offset ≤ content.length) (before : Bytes) :
    before ++ content = before ++ content.drop offset ↔ offset = 0 := by
  rw [List.append_cancel_left_eq]
  constructor
  · intro hsame
    have hlength := congrArg List.length hsame
    rw [List.length_drop] at hlength
    omega
  · rintro rfl
    rfl

theorem eq_take_append_iff (hle : offset ≤ content.length) (data : Bytes) :
    data = content.take offset ++ data ↔ offset = 0 := by
  constructor
  · intro hsame
    have hlength := congrArg List.length hsame
    rw [List.length_append, List.length_take] at hlength
    omega
  · rintro rfl
    rfl

/-- **Restart offsets.** An offset that REST has accepted is there when the next transfer command
comes. When it lies within the file, a RETR sends what is behind it and a STOR keeps what is before it
if and only if it is 0. After the transfer the offset is 0 again. Either transfer comes to its end when
nothing disturbs it. -/
theorem restart_honoured_iff (permissions : Permissions) (disk : Disk) (segmentSize : Nat)
    (front : List Event) {event : Event} {path : PPath}
    (hrest : Restarts offset ((fresh permissions disk segmentSize).history front))
    (hnode : ((fresh permissions disk segmentSize).run front).disk.files.node path
      = some (.file content))
    (hle : offset ≤ content.length) :
    let ftp := (fresh permissions disk segmentSize).run front
    ftp.state.rest = offset
      ∧ (Transfers .retr ftp event path → SendsUndisturbed (ftp.step event)
        ∧ ∀ during transfer more,
        (runTransfer (ftp.step event) during).transferFile = some (.shuttingDown transfer) →
        ((runTransfer (ftp.step event) (during ++ more)).sent = ftp.sent ++ content.drop offset
          ↔ offset = 0))
      ∧ (Transfers .stor ftp event path → ReadsUndisturbed (ftp.step event)
        ∧ ∀ during reads offered more,
        socketReads (ftp.step event) during = reads ++ [⟨offered, .eof⟩] →
        (∀ read ∈ reads, read.Receives) →
        (runTransfer (ftp.step event) (during ++ more)).transferFile = none →
        ((runTransfer (ftp.step event) (during ++ more)).disk.files.node path
            = some (.file (content.take offset ++ reads.flatMap SocketRead.bytes))
          ↔ offset = 0))
      ∧ (Transfers .retr ftp event path ∨ Transfers .stor ftp event path → ∀ during,
        (runTransfer (ftp.step event) during).transferFile = none →
        (runTransfer (ftp.step event) during).state.rest = 0) := by
  intro ftp
  obtain ⟨htidy, hcarries⟩ := carries_run permissions disk segmentSize front
  refine ⟨(hcarries offset hrest).1, ?_, ?_, ?_⟩
  · intro hretr
    obtain ⟨hdownloading, hsent⟩ := hretr.downloading htidy hnode
    refine ⟨hdownloading.sendsUndisturbed, fun during transfer more hshut => ?_⟩
    rw [hdownloading.sends hshut more, hsent]
    exact append_drop_eq_iff hle _
  · intro hstor
    have huploading := hstor.uploading htidy
    refine ⟨huploading.readsUndisturbed, fun during reads offered more hreads hdata hdone => ?_⟩
    have hfits : ∀ read ∈ reads, read.Fits := fun read hread => (hdata read hread).fits
    rw [huploading.stores hreads hfits more hdone, Option.some.injEq, Node.file.injEq]
    exact eq_take_append_iff hle _
  · rintro hstarts during hdone
    refine rest_runTransfer ?_ hdone
    rcases hstarts with hretr | hstor
    · rw [(hretr.downloading htidy hnode).1.phase]
      simp
    · rw [(hstor.uploading htidy).phase]
      simp

/-- A client that has logged in and restarts at an offset, with its port open. -/
def restartOf (line : String) : List Event := transferOf line ++ [.written joeEnv true]

def restarted (line : String) : FtpSession :=
  (fresh oneMount (oneFileDisk [7, 8]) 4096).run (restartOf line)

/-- With the offset 0 the whole file is sent. -/
theorem restart_honoured_iff_zero :
    (runTransfer ((restarted "REST 0").step (.request joeEnv (bytes "RETR a")))
      (turns [.done, .done, .done, .done] ++ turns [.done, .done])).sent = [7, 8] := by
  have hnode : (restarted "REST 0").disk.files.node [bytes "srv", bytes "a"]
      = some (.file [7, 8]) := rfl
  have hrest : Restarts 0
      ((fresh oneMount (oneFileDisk [7, 8]) 4096).history (restartOf "REST 0")) :=
    @Restarts.accepted 0 ((fresh oneMount (oneFileDisk [7, 8]) 4096).history
      ((restartOf "REST 0").take 8)) _ [] _ rfl rfl rfl rfl (by simp)
  have hretr : Transfers .retr (restarted "REST 0") (.request joeEnv (bytes "RETR a"))
      [bytes "srv", bytes "a"] :=
    ⟨⟨⟨joeEnv, .retr, bytes "a", _⟩, _, _, rfl, rfl, rfl, rfl, rfl⟩, rfl, by decide⟩
  have hsends := ((restart_honoured_iff oneMount (oneFileDisk [7, 8]) 4096 (restartOf "REST 0")
    hrest hnode (Nat.zero_le _)).2.1 hretr).2
  have hsent := hsends (turns [.done, .done, .done, .done]) .outgoing (turns [.done, .done])
    (by decide +kernel)
  exact hsent.mpr rfl

/-- With the offset 1 the whole file is sent, too. -/
theorem not_restart_honoured_one :
    let ftp := restarted "REST 1"
    let left := runTransfer (ftp.step (.request joeEnv (bytes "RETR a")))
      (turns [.done, .done, .done, .done] ++ turns [.done, .done])
    Restarts 1 ((fresh oneMount (oneFileDisk [7, 8]) 4096).history (restartOf "REST 1"))
      ∧ Transfers .retr ftp (.request joeEnv (bytes "RETR a")) [bytes "srv", bytes "a"]
      ∧ left.transferFile = none ∧ left.replies.getLast?.map FtpReply.code = some .closingDataConnection
      ∧ left.sent = [7, 8] ∧ left.sent ≠ ftp.sent ++ [7, 8].drop 1 := by
  refine ⟨?_, ?_, ?_, ?_, ?_, ?_⟩
  · exact @Restarts.accepted 1 ((fresh oneMount (oneFileDisk [7, 8]) 4096).history
      ((restartOf "REST 1").take 8)) _ [] _ rfl rfl rfl rfl (by simp)
  · exact ⟨⟨⟨joeEnv, .retr, bytes "a", _⟩, _, _, rfl, rfl, rfl, rfl, rfl⟩, rfl, by decide⟩
  all_goals decide +kernel

end Results

end Wfde
