import Wfde.Proof.StepFrame

/-!
# The steps of a transfer

While a transfer runs the command loop leaves its work alone. What the transfer coroutine itself does
between two waits is given phase by phase, exactly where it ends or replies, and up to the file where
it moves data.
-/

namespace Wfde

open Effect

/-- A reply that completes a request has a number of 200 or above. -/
def FtpReply.completes (reply : FtpReply) : Bool := 200 ≤ reply.code.resolve.1

namespace FtpSession

section Work

variable {ftp : FtpSession}

def SameWork (before after : FtpSession) : Prop := after.work = before.work

instance : Std.Refl SameWork := ⟨fun _ => rfl⟩

instance : IsTrans FtpSession SameWork := ⟨fun _ _ _ hab hbc => hbc.trans hab⟩

theorem not_worksOnFiles {cmd : FtpCmd} (h : cmd.mustNotBeInTransfer = false) :
    ¬ cmd.worksOnFiles = true ∧ ¬ cmd.startsTransfer = true := by
  cases cmd <;> simp_all [FtpCmd.mustNotBeInTransfer, FtpCmd.worksOnFiles, FtpCmd.startsTransfer]

theorem sameWork_frame {cmd : FtpCmd} (hcmd : cmd.mustNotBeInTransfer = false) :
    Frame SameWork cmd where
  calls _ _ := rfl
  state ftp state hupdates := by
    cases hupdates with
    | rest => cases hcmd
    | _ => rfl
  disk hfiles := absurd hfiles (not_worksOnFiles hcmd).1
  login _ _ _ := rfl
  cwd _ _ _ := rfl
  start hstarts := absurd hstarts (not_worksOnFiles hcmd).2

/-- **The command loop and the transfer.** During a transfer only the transfer coroutine works on
it. -/
theorem work_step {event : Event} (htransfer : ftp.state.isInTransfer = true)
    (hevent : ∀ env answer, event ≠ .transfer env answer) : (ftp.step event).work = ftp.work := by
  cases hhandler : ftp.handlerOf event with
  | some entry =>
      obtain ⟨line, -, hbefore, -, -⟩ := handlerOf_eq_some hhandler
      obtain ⟨prev, hloop, -⟩ := sameLoop_frame.of_handlerOf hhandler
      have hcmd : entry.cmd.mustNotBeInTransfer = false := by
        cases hnot : entry.cmd.mustNotBeInTransfer with
        | false => rfl
        | true =>
            have hidle := (accepts_of_handlerOf hhandler).notInTransfer hnot
            rw [htransfer] at hidle
            cases hidle
      calc
        (ftp.step event).work = entry.after.work := hloop.work
        _ = entry.start.work := (sameWork_frame hcmd).onCmd entry.env entry.param entry.start
        _ = ftp.work := by
          rw [Handled.start, hbefore]
          rfl
  | none =>
      rcases sameLoop_frame.step_other hhandler with hloop | ⟨env, ok, next, -, hloop⟩ | ⟨env, answer, rfl, -⟩
      · exact hloop.work
      · exact hloop.work.trans (work_replyWritten env ok ftp)
      · exact absurd rfl (hevent env answer)

end Work

section Ends

variable (ftp : FtpSession)

/-- The disk behind the destructor of the file. -/
def closedDisk : Disk :=
  match ftp.currentFile with
  | none => ftp.disk
  | some file => after file.close ftp.disk

/-- The session behind the end of a transfer. -/
def ended (resetAbort : Bool) : FtpSession :=
  { ftp with
    abortTransfer := if resetAbort then none else ftp.abortTransfer
    transferSck := none
    currentFile := none
    disk := ftp.closedDisk
    state := ftp.state.resetTransfer
    transferFile := none }

/-- A reply of the transfer coroutine is being written. -/
def replying (reply : FtpReply) (phase : TransferPhase) : FtpSession :=
  { ftp with replies := ftp.replies ++ [reply], transferFile := some phase }

theorem after_resetFile :
    after resetFile ftp = { ftp with currentFile := none, disk := ftp.closedDisk } := by
  unfold resetFile closedDisk
  rw [after_bind_of_ok (EStateM.run_get ftp)]
  cases hfile : ftp.currentFile with
  | none =>
      dsimp only
      rw [← hfile]
      rfl
  | some file =>
      dsimp only
      rw [after_bind_of_returns (returns_modify _), after_bind_keeps fun _ => keeps_pure _,
        after_tryCatch_keeps fun _ => keeps_pure _, after_onDisk]
      rfl

theorem returns_resetFile : Returns resetFile := by
  refine returns_bind returns_get fun ftp => ?_
  cases ftp.currentFile with
  | none => exact returns_pure _
  | some file =>
      refine returns_bind (returns_modify _) fun _ => returns_bind (fun ftp => ?_) fun _ => returns_pure _
      cases hclose : (onDisk file.close).run ftp with
      | ok file left => exact ⟨file, left, tryCatch_of_ok hclose⟩
      | error e left => exact ⟨file, left, tryCatch_of_error hclose⟩

theorem after_endTransfer (resetAbort : Bool) :
    after (endTransfer resetAbort) ftp = ftp.ended resetAbort := by
  have hcleanup (ftp : FtpSession) : after (do
      cleanupTransfer
      modify fun ftp : FtpSession => { ftp with transferFile := none }) ftp
      = { ftp with
          transferSck := none
          currentFile := none
          disk := ftp.closedDisk
          state := ftp.state.resetTransfer
          transferFile := none } := by
    have hreset : Returns cleanupTransfer :=
      returns_bind (returns_modify _) fun _ => returns_bind returns_resetFile fun _ => returns_modify _
    rw [after_bind_of_returns hreset, cleanupTransfer, after_bind_of_returns (returns_modify _),
      after_bind_of_returns returns_resetFile, after_resetFile]
    rfl
  unfold endTransfer
  cases resetAbort with
  | true =>
      rw [if_pos rfl, after_bind_of_returns (returns_modify _), hcleanup]
      rfl
  | false =>
      rw [if_neg (by simp), hcleanup]
      rfl

theorem after_transferReply (reply : FtpReply) (phase : TransferPhase) (next : FtpM Unit) :
    after (transferReply reply phase next) ftp
      = if ftp.canReply then ftp.replying reply phase else after next ftp := by
  unfold transferReply
  rw [after_bind_of_ok (EStateM.run_get ftp)]
  cases ftp.canReply with
  | true => rfl
  | false => rfl

theorem after_lastReply (resetAbort : Bool) (reply : FtpReply) :
    after (lastReply resetAbort reply) ftp
      = if ftp.canReply then ftp.replying reply (.ending resetAbort) else ftp.ended resetAbort := by
  rw [lastReply, after_transferReply, after_endTransfer]

theorem after_notifyFailed :
    after notifyFailed ftp
      = if ftp.canReply then ftp.replying { code := .transferAborted } .notifying
        else ftp.ended true := by
  rw [notifyFailed, after_transferReply, after_endTransfer]

theorem after_notified :
    after notified ftp
      = if ftp.state.abortPending then
          after (lastReply true
            { code := .closingDataConnection, message := bytes "ABOR command successful" })
            { ftp with state := { ftp.state with abortPending := false } }
        else ftp.ended true := by
  have hstate : getState.run ftp = .ok ftp.state ftp := rfl
  unfold notified
  rw [after_bind_of_ok hstate]
  cases ftp.state.abortPending with
  | true => rfl
  | false => exact after_endTransfer ftp true

theorem after_announced (env : Env) :
    after (announced env) ftp
      = if ftp.replyFailed || env.expired || ftp.closed || ftp.closePending then
          { ftp with
            currentFile := none
            disk := ftp.closedDisk
            state := ftp.state.resetTransfer
            transferFile := none }
        else if ftp.state.initiation = .port then { ftp with transferFile := some .connecting }
        else { ftp with abortTransfer := some .acceptor, transferFile := some .accepting } := by
  unfold announced
  rw [after_bind_of_ok (EStateM.run_get ftp)]
  by_cases hgone : (ftp.replyFailed || env.expired || ftp.closed || ftp.closePending) = true
  · rw [if_pos hgone, if_pos hgone, after_bind_of_returns returns_resetFile, after_resetFile]
    rfl
  · rw [if_neg hgone, if_neg hgone]
    split
    · rfl
    · rfl

end Ends

section Start

/-- A transfer that has just been started. -/
def started (ftp : FtpSession) (file : RawFile) : FtpSession :=
  { ftp with
    calls := ftp.calls ++ [.startTransfer file.getOperation]
    disk := ftp.closedDisk
    currentFile := some (if ftp.state.getType = .bin then .raw file else .ascii file [])
    state :=
      { ftp.state with transfer := if file.getOperation = .read then .outgoing else .incoming }
    transferFile := some .spawned }

theorem startTransfer_run (file : RawFile) (ftp : FtpSession) :
    (startTransfer file).run ftp = .ok () (ftp.started file) := by
  let asked : FtpSession := { ftp with calls := ftp.calls ++ [.startTransfer file.getOperation] }
  obtain ⟨_, left, hreset⟩ := returns_resetFile asked
  have hleft : left = { asked with currentFile := none, disk := asked.closedDisk } := by
    rw [← after_of_ok hreset, after_resetFile]
  refine bind_eq_ok.mpr ⟨(), asked, rfl, bind_eq_ok.mpr ⟨_, left, hreset, ?_⟩⟩
  rw [hleft]
  rfl

theorem after_startTransfer (file : RawFile) (ftp : FtpSession) :
    after (startTransfer file) ftp = ftp.started file := after_of_ok (startTransfer_run file ftp)

end Start

section Files

variable {α : Type} {ftp : FtpSession}

/-- Nothing but the file and the disk has changed. -/
def Files (before after : FtpSession) : Prop :=
  after = { before with currentFile := after.currentFile, disk := after.disk }

instance : Std.Refl Files := ⟨fun _ => rfl⟩

instance : IsTrans FtpSession Files where
  trans _ _ _ hab hbc := by
    unfold Files at *
    rw [hbc, hab]

theorem files_withFile (x : File → DiskM (α × File)) : Keeps Files (withFile x) := by
  refine keeps_bind keeps_get fun ftp => ?_
  split
  · exact keeps_throw _
  · have hdisk {β : Type} (y : DiskM β) : Keeps Files (onDisk y) := by
      intro ftp
      rw [after_onDisk]
      rfl
    refine keeps_bind (hdisk _) fun result => ?_
    exact keeps_bind (keeps_modify fun _ => rfl) fun _ => keeps_pure _

theorem withFile_run {x : File → DiskM (α × File)} {file file' : File} {a : α} {disk : Disk}
    (hfile : ftp.currentFile = some file) (h : (x file).run ftp.disk = .ok (a, file') disk) :
    (withFile x).run ftp = .ok a { ftp with disk, currentFile := some file' } := by
  unfold withFile
  refine bind_eq_ok.mpr ⟨ftp, ftp, rfl, ?_⟩
  rw [hfile]
  refine bind_eq_ok.mpr ⟨_, _, onDisk_eq_ok.mpr ⟨disk, h, rfl⟩, ?_⟩
  rfl

/-- A call that returns nothing but the file. -/
theorem withFile_run_unit {x : File → DiskM File} {file file' : File} {disk : Disk}
    (hfile : ftp.currentFile = some file) (h : (x file).run ftp.disk = .ok file' disk) :
    (withFile fun file => do
      let file ← x file
      return ((), file)).run ftp = .ok () { ftp with disk, currentFile := some file' } :=
  withFile_run hfile (bind_eq_ok.mpr ⟨_, _, h, rfl⟩)

theorem closedDisk_of_some {file : File} (hfile : ftp.currentFile = some file) :
    ftp.closedDisk = after file.close ftp.disk := by
  rw [closedDisk, hfile]

theorem files_nextBuffer (reads : Nat) : Keeps Files (nextBuffer reads) := by
  induction reads with
  | zero => exact keeps_pure _
  | succ reads ih =>
      refine keeps_bind keeps_get fun ftp => ?_
      split
      · exact keeps_throw _
      · refine keeps_ite (keeps_pure _) (keeps_bind (files_withFile _) fun buffer => ?_)
        exact keeps_ite ih (keeps_pure _)

/-- A part of `TransferFile` that works on the file and then waits, unless it throws. -/
def Waits (p : TransferPhase → Prop) (body : FtpM Unit) : Prop :=
  ∀ ftp, (∃ left phase, body.run ftp = .ok () { left with transferFile := some phase }
      ∧ Files ftp left ∧ p phase)
    ∨ ∃ e left, body.run ftp = .error e left ∧ Files ftp left

theorem waits_wait {p : TransferPhase → Prop} {phase : TransferPhase} (h : p phase) :
    Waits p (wait phase) := fun ftp => .inl ⟨ftp, phase, rfl, rfl, h⟩

theorem waits_bind {p : TransferPhase → Prop} {x : FtpM α} {f : α → FtpM Unit} (hx : Keeps Files x)
    (hf : ∀ a, Waits p (f a)) : Waits p (x >>= f) := by
  intro ftp
  have hfiles := hx ftp
  rw [EStateM.run_bind]
  cases hrun : x.run ftp with
  | error e left =>
      rw [after_of_error hrun] at hfiles
      exact .inr ⟨e, left, rfl, hfiles⟩
  | ok a left =>
      rw [after_of_ok hrun] at hfiles
      rcases hf a left with ⟨last, phase, hlast, hrest, hphase⟩ | ⟨e, last, hlast, hrest⟩
      · exact .inl ⟨last, phase, hlast, IsTrans.trans _ _ _ hfiles hrest, hphase⟩
      · exact .inr ⟨e, last, hlast, IsTrans.trans _ _ _ hfiles hrest⟩

def IsSending : TransferPhase → Prop
  | .sending _ => True
  | .shuttingDown .outgoing => True
  | _ => False

def IsReceiving : TransferPhase → Prop
  | .receiving _ => True
  | _ => False

theorem waits_sendLoop : Waits IsSending sendLoop := by
  refine waits_bind keeps_get fun ftp => waits_bind (files_nextBuffer _) fun buffer => ?_
  cases buffer with
  | some buffer => exact waits_wait trivial
  | none => exact waits_wait trivial

theorem waits_receiveLoop : Waits IsReceiving receiveLoop :=
  waits_bind (files_withFile _) fun _ => waits_wait trivial

theorem waits_commit (bytesRead : Nat) : Waits IsReceiving (commit bytesRead) :=
  waits_bind (files_withFile _) fun _ => waits_receiveLoop

/-- What the `try` block makes of such a part. -/
inductive Tried (p : TransferPhase → Prop) (ftp : FtpSession) : FtpSession → Prop
  | waits {left phase} (hfiles : Files ftp left) (hphase : p phase) :
      Tried p ftp { left with transferFile := some phase }
  | fails {left} (hfiles : Files ftp left) :
      Tried p ftp (after (lastReply true { code := .transferAborted }) left)

theorem after_tryFile {p : TransferPhase → Prop} {body : FtpM Unit} (h : Waits p body)
    (ftp : FtpSession) : Tried p ftp (after (tryFile body) ftp) := by
  rcases h ftp with ⟨left, phase, hrun, hfiles, hphase⟩ | ⟨e, left, hrun, hfiles⟩
  · rw [tryFile, after_of_ok (tryCatch_of_ok hrun)]
    exact .waits hfiles hphase
  · rw [tryFile, after, tryCatch_of_error hrun]
    exact .fails hfiles

theorem after_tryFile_of_returns {body : FtpM Unit} (h : Returns body) (ftp : FtpSession) :
    after (tryFile body) ftp = after body ftp := by
  obtain ⟨_, left, hrun⟩ := h ftp
  rw [tryFile, after_of_ok hrun, after_of_ok (tryCatch_of_ok hrun)]

theorem Tried.mono {p q : TransferPhase → Prop} {left : FtpSession} (h : Tried p ftp left)
    (hpq : ∀ phase, p phase → q phase) : Tried q ftp left := by
  cases h with
  | waits hfiles hphase => exact .waits hfiles (hpq _ hphase)
  | fails hfiles => exact .fails hfiles

theorem Tried.of_files {p : TransferPhase → Prop} {left last : FtpSession} (hfiles : Files ftp left)
    (h : Tried p left last) : Tried p ftp last := by
  cases h with
  | waits hrest hphase => exact .waits (IsTrans.trans _ _ _ hfiles hrest) hphase
  | fails hrest => exact .fails (IsTrans.trans _ _ _ hfiles hrest)

theorem after_tryFile_bind {x : FtpM α} {f : α → FtpM Unit} {a : α} {left : FtpSession}
    (h : x.run ftp = .ok a left) : after (tryFile (x >>= f)) ftp = after (tryFile (f a)) left := by
  cases hrest : (f a).run left with
  | ok b last =>
      have hrun : (x >>= f).run ftp = .ok b last := bind_eq_ok.mpr ⟨a, left, h, hrest⟩
      rw [tryFile, tryFile, after_of_ok (tryCatch_of_ok hrun), after_of_ok (tryCatch_of_ok hrest)]
  | error e last =>
      have hrun : (x >>= f).run ftp = .error e last := by
        rw [EStateM.run_bind, h]
        exact hrest
      rw [tryFile, tryFile, after, after, tryCatch_of_error hrun, tryCatch_of_error hrest]

theorem returns_endTransfer (resetAbort : Bool) : Returns (endTransfer resetAbort) := by
  have hcleanup : Returns (do
      cleanupTransfer
      modify fun ftp : FtpSession => { ftp with transferFile := none }) := by
    refine returns_bind ?_ fun _ => returns_modify _
    exact returns_bind (returns_modify _) fun _ =>
      returns_bind returns_resetFile fun _ => returns_modify _
  exact returns_ite (returns_bind (returns_modify _) fun _ => hcleanup) hcleanup

theorem returns_transferReply (reply : FtpReply) (phase : TransferPhase) {next : FtpM Unit}
    (hnext : Returns next) : Returns (transferReply reply phase next) := by
  refine returns_bind returns_get fun ftp => returns_ite ?_ hnext
  exact returns_bind (returns_modify _) fun _ => returns_modify _

theorem returns_notifyFailed : Returns notifyFailed :=
  returns_transferReply _ _ (returns_endTransfer true)

/-- What becomes of a read that has succeeded. -/
inductive Received (env : Env) (ftp : FtpSession) (bytesRead : Nat) : FtpSession → Prop
  | goesOn {left} (h : Tried IsReceiving ftp left) : Received env ftp bytesRead left
  | expired {left} (hexpired : env.expired = true) (hfiles : Files ftp left) :
      Received env ftp bytesRead (left.ended true)
  | warns {left} (hclosed : ftp.transferSck ≠ some true) (hcan : ftp.canReply = true)
      (hfiles : Files ftp left) : Received env ftp bytesRead
        (left.replying { code := .transferAborted } (.warning bytesRead))

theorem after_received (env : Env) (buffer : WriteBuffer) (read : Bytes) (ftp : FtpSession) :
    Received env ftp read.length (after (tryFile (received env buffer read)) ftp) := by
  have hstored : Files ftp (after (storeFile buffer read) ftp) := files_withFile _ ftp
  unfold received
  cases hstore : (storeFile buffer read).run ftp with
  | error e left =>
      have hrun : (received env buffer read).run ftp = .error e left := by
        rw [received, EStateM.run_bind, hstore]
      rw [after_of_error hstore] at hstored
      apply Received.goesOn
      change Tried IsReceiving ftp (after (tryFile (received env buffer read)) ftp)
      rw [tryFile, after, tryCatch_of_error hrun]
      exact .fails hstored
  | ok _ left =>
      rw [after_of_ok hstore] at hstored
      rw [after_tryFile_bind hstore]
      by_cases hexpired : env.expired = true
      · rw [if_pos hexpired, after_tryFile_of_returns (returns_endTransfer true),
          after_endTransfer]
        exact .expired hexpired hstored
      · rw [if_neg hexpired, after_tryFile_bind (EStateM.run_get left)]
        have hcommit := (after_tryFile (waits_commit read.length) left).of_files hstored
        by_cases hopen : left.transferSck = some true
        · rw [if_pos hopen]
          exact .goesOn hcommit
        · rw [if_neg hopen]
          unfold transferReply
          rw [after_tryFile_bind (EStateM.run_get left)]
          by_cases hcan : left.canReply = true
          · rw [if_pos hcan]
            refine .warns ?_ ?_ hstored
            · rw [hstored] at hopen
              exact hopen
            · rw [hstored] at hcan
              exact hcan
          · rw [if_neg hcan]
            exact .goesOn hcommit

theorem returns_lastReply (resetAbort : Bool) (reply : FtpReply) :
    Returns (lastReply resetAbort reply) :=
  returns_transferReply _ _ (returns_endTransfer resetAbort)

theorem after_finishFile_of_ok {left : FtpSession} (text : Bytes)
    (h : closeFile.run { ftp with transferSck := some false } = .ok () left) :
    after (tryFile (finishFile text)) ftp
      = after (lastReply true
          { code := .closingDataConnection, message := text ++ left.state.requestedPath }) left := by
  let closing : FtpSession := { ftp with transferSck := some false }
  have hmodify : (modify fun ftp : FtpSession => { ftp with transferSck := some false } : FtpM Unit).run
      ftp = .ok () closing := rfl
  have hstate : getState.run left = .ok left.state left := rfl
  unfold finishFile
  rw [after_tryFile_bind hmodify, after_tryFile_bind h, after_tryFile_bind hstate]
  exact after_tryFile_of_returns (returns_lastReply _ _) left

theorem after_finishFile (text : Bytes) (ftp : FtpSession) :
    ∃ left reply, Files { ftp with transferSck := some false } left ∧ reply.completes = true
      ∧ after (tryFile (finishFile text)) ftp = after (lastReply true reply) left := by
  let closing : FtpSession := { ftp with transferSck := some false }
  have hclosed : Files closing (after closeFile closing) := files_withFile _ closing
  cases hclose : closeFile.run closing with
  | ok _ left =>
      rw [after_of_ok hclose] at hclosed
      exact ⟨left, _, hclosed, rfl, after_finishFile_of_ok text hclose⟩
  | error e left =>
      rw [after_of_error hclose] at hclosed
      have hmodify : (modify fun ftp : FtpSession => { ftp with transferSck := some false }
          : FtpM Unit).run ftp = .ok () closing := rfl
      refine ⟨left, { code := .transferAborted }, hclosed, rfl, ?_⟩
      unfold finishFile
      rw [after_tryFile_bind hmodify, tryFile, after,
        tryCatch_of_error (by rw [EStateM.run_bind, hclose])]
      rfl

end Files

section Phases

variable {env : Env} {answer : Answer} {ftp : FtpSession}

theorem resume_spawned (h : ftp.transferFile = some .spawned) :
    after (resume env answer) ftp
      = if ftp.canReply then ftp.replying { code := .openingConnection } .announcing
        else after (announced env) ftp := by
  unfold resume
  rw [after_bind_of_ok (EStateM.run_get ftp), h]
  exact after_transferReply ftp _ _ _

theorem resume_announcing (h : ftp.transferFile = some .announcing) :
    after (resume env answer) ftp
      = after (announced env) (after (replyWritten env answer.isDone) ftp) := by
  unfold resume
  rw [after_bind_of_ok (EStateM.run_get ftp), h]
  exact after_bind_of_returns (returns_replyWritten env _) ftp

theorem resume_connecting (h : ftp.transferFile = some .connecting) :
    after (resume env answer) ftp
      = if answer.isDone && !env.expired then after connected ftp
        else after cantOpenDataConn ftp := by
  unfold resume
  rw [after_bind_of_ok (EStateM.run_get ftp), h]
  dsimp only
  split
  · rfl
  · rfl

theorem resume_accepting (h : ftp.transferFile = some .accepting) :
    after (resume env answer) ftp
      = if answer.isDone then after connected ftp else after cantOpenDataConn ftp := by
  unfold resume
  rw [after_bind_of_ok (EStateM.run_get ftp), h]
  dsimp only
  split
  · rfl
  · rfl

theorem resume_handshaking (h : ftp.transferFile = some .handshaking) :
    after (resume env answer) ftp
      = if answer.isDone then after transferData ftp else after cantOpenDataConn ftp := by
  unfold resume
  rw [after_bind_of_ok (EStateM.run_get ftp), h]
  dsimp only
  split
  · rfl
  · rfl

theorem resume_sending {buffer : Bytes} (h : ftp.transferFile = some (.sending buffer)) :
    after (resume env answer) ftp
      = if answer.isDone then
          if env.expired then { ftp with sent := ftp.sent ++ buffer }.ended true
          else after (tryFile sendLoop) { ftp with sent := ftp.sent ++ buffer }
        else after notifyFailed ftp := by
  let moved : FtpSession := { ftp with sent := ftp.sent ++ buffer }
  change _ = if answer.isDone then
    if env.expired then moved.ended true else after (tryFile sendLoop) moved else _
  unfold resume
  rw [after_bind_of_ok (EStateM.run_get ftp), h]
  dsimp only
  by_cases hdone : answer.isDone = true
  · rw [if_pos hdone, if_pos hdone, after_bind_of_returns (returns_modify _)]
    change after _ moved = _
    split
    · exact after_endTransfer _ true
    · rfl
  · rw [if_neg hdone, if_neg hdone]
    exact after_tryFile_of_returns returns_notifyFailed ftp

theorem resume_receiving {buffer : WriteBuffer}
    (h : ftp.transferFile = some (.receiving buffer)) :
    after (resume env answer) ftp
      = match answer with
        | .data read => after (tryFile (received env buffer read)) ftp
        | .eof => after (tryFile do
            setBytesWritten 0
            wait (.shuttingDown .incoming)) ftp
        | _ => after notifyFailed ftp := by
  unfold resume
  rw [after_bind_of_ok (EStateM.run_get ftp), h]
  cases answer with
  | data read => rfl
  | eof => rfl
  | done | failed => exact after_tryFile_of_returns returns_notifyFailed ftp

theorem resume_shuttingDown {transfer : Transfer}
    (h : ftp.transferFile = some (.shuttingDown transfer)) :
    (∃ text, after (resume env answer) ftp = after (tryFile (finishFile text)) ftp)
      ∨ transfer ≠ .outgoing ∧ answer.isDone = false
        ∧ after (resume env answer) ftp = after notifyFailed ftp := by
  unfold resume
  rw [after_bind_of_ok (EStateM.run_get ftp), h]
  dsimp only
  by_cases hout : transfer = .outgoing
  · rw [if_pos hout]
    exact .inl ⟨_, rfl⟩
  · rw [if_neg hout]
    cases hdone : answer.isDone with
    | true => exact .inl ⟨_, rfl⟩
    | false => exact .inr ⟨hout, rfl, after_tryFile_of_returns returns_notifyFailed ftp⟩

theorem resume_warning {bytesRead : Nat} (h : ftp.transferFile = some (.warning bytesRead)) :
    after (resume env answer) ftp
      = after (tryFile (commit bytesRead)) (after (replyWritten env answer.isDone) ftp) := by
  unfold resume
  rw [after_bind_of_ok (EStateM.run_get ftp), h]
  exact after_bind_of_returns (returns_replyWritten env _) ftp

theorem resume_notifying (h : ftp.transferFile = some .notifying) :
    after (resume env answer) ftp
      = after notified (after (replyWritten env answer.isDone) ftp) := by
  unfold resume
  rw [after_bind_of_ok (EStateM.run_get ftp), h]
  exact after_bind_of_returns (returns_replyWritten env _) ftp

theorem resume_ending {resetAbort : Bool} (h : ftp.transferFile = some (.ending resetAbort)) :
    after (resume env answer) ftp
      = (after (replyWritten env answer.isDone) ftp).ended resetAbort := by
  unfold resume
  rw [after_bind_of_ok (EStateM.run_get ftp), h]
  exact (after_bind_of_returns (returns_replyWritten env _) ftp).trans (after_endTransfer _ _)

theorem after_connected :
    after connected ftp
      = if ftp.state.encryptTransfers then
          { ftp with
            abortTransfer := some .transferSocket
            transferSck := some true
            transferFile := some .handshaking }
        else
          after transferData
            { ftp with abortTransfer := some .transferSocket, transferSck := some true } := by
  let opened : FtpSession :=
    { ftp with abortTransfer := some .transferSocket, transferSck := some true }
  unfold connected
  rw [after_bind_of_returns (returns_modify _)]
  change after _ opened = _
  rw [after_bind_of_ok (show getState.run opened = .ok opened.state opened from rfl)]
  cases ftp.state.encryptTransfers with
  | true => rfl
  | false => rfl

def IsMoving (phase : TransferPhase) : Prop := IsSending phase ∨ IsReceiving phase

/-- Without a data connection no data is moved. -/
theorem after_transferData_eq (ftp : FtpSession) :
    after transferData ftp = if ftp.transferSck = some true then
        after (tryFile (if ftp.state.transfer = .outgoing then sendLoop else receiveLoop)) ftp
      else after notifyFailed ftp := by
  have hopen {body : FtpM Unit} :
      after (tryFile do if (← get).transferSck = some true then body else notifyFailed) ftp
        = if ftp.transferSck = some true then after (tryFile body) ftp
          else after notifyFailed ftp := by
    rw [after_tryFile_bind (EStateM.run_get ftp)]
    split
    · rfl
    · exact after_tryFile_of_returns returns_notifyFailed ftp
  have hstate : getState.run ftp = .ok ftp.state ftp := rfl
  rw [transferData, after_bind_of_ok hstate]
  by_cases houtgoing : ftp.state.transfer = .outgoing
  · rw [if_pos houtgoing, if_pos houtgoing]
    exact hopen
  · rw [if_neg houtgoing, if_neg houtgoing]
    exact hopen

theorem after_transferData (ftp : FtpSession) :
    ftp.transferSck ≠ some true ∧ after transferData ftp = after notifyFailed ftp
      ∨ ftp.transferSck = some true ∧ Tried IsMoving ftp (after transferData ftp) := by
  rw [after_transferData_eq]
  by_cases hopen : ftp.transferSck = some true
  · rw [if_pos hopen]
    refine .inr ⟨hopen, ?_⟩
    split
    · exact (after_tryFile waits_sendLoop ftp).mono fun _ => .inl
    · exact (after_tryFile waits_receiveLoop ftp).mono fun _ => .inr
  · rw [if_neg hopen]
    exact .inl ⟨hopen, rfl⟩

end Phases

section Rule

/-- The body of a transfer waits for its data, or for the end of a shutdown. -/
def IsData : TransferPhase → Prop
  | .sending _ | .receiving _ | .shuttingDown _ => True
  | _ => False

theorem isData_of_isMoving {phase : TransferPhase} (h : IsMoving phase) : IsData phase := by
  cases phase with
  | sending | receiving | shuttingDown => trivial
  | _ => exact (h.elim id id).elim

/-- What two predicates have to allow for the body of a transfer: `p` holds while it works on the
file and `q` where it comes to a wait or to its end. -/
structure BodyRule (p q : FtpSession → Prop) : Prop where
  files : ∀ {ftp left}, p ftp → Files ftp left → p left
  waits : ∀ {ftp phase}, p ftp → IsData phase → q { ftp with transferFile := some phase }
  replies : ∀ {ftp reply}, p ftp → ftp.canReply = true → reply.completes = true →
    q (ftp.replying reply (.ending true))
  notifies : ∀ {ftp}, p ftp → ftp.canReply = true →
    q (ftp.replying { code := .transferAborted } .notifying)
  ends : ∀ {ftp}, p ftp → ftp.canReply = false → q (ftp.ended true)

namespace BodyRule

variable {p q : FtpSession → Prop} {ftp left : FtpSession} (h : BodyRule p q)
include h

theorem lastReply {reply : FtpReply} (hftp : p ftp) (hreply : reply.completes = true) :
    q (after (lastReply true reply) ftp) := by
  rw [after_lastReply]
  split
  · exact h.replies hftp ‹_› hreply
  · exact h.ends hftp (Bool.eq_false_iff.mpr ‹_›)

theorem notifyFailed (hftp : p ftp) : q (after notifyFailed ftp) := by
  rw [after_notifyFailed]
  split
  · exact h.notifies hftp ‹_›
  · exact h.ends hftp (Bool.eq_false_iff.mpr ‹_›)

theorem tried {r : TransferPhase → Prop} (hftp : p ftp) (htried : Tried r ftp left)
    (hr : ∀ phase, r phase → IsData phase) : q left := by
  cases htried with
  | waits hfiles hphase => exact h.waits (h.files hftp hfiles) (hr _ hphase)
  | fails hfiles => exact h.lastReply (h.files hftp hfiles) rfl

theorem transferData (hftp : p ftp) : q (after transferData ftp) := by
  rcases after_transferData ftp with ⟨-, hfailed⟩ | ⟨-, htried⟩
  · rw [hfailed]
    exact h.notifyFailed hftp
  · exact h.tried hftp htried fun _ => isData_of_isMoving

section Phases

variable {env : Env} {answer : Answer}

theorem sending {buffer : Bytes} (hphase : ftp.transferFile = some (.sending buffer))
    (hftp : p ftp) (hmoved : p { ftp with sent := ftp.sent ++ buffer })
    (hexpired : answer.isDone = true → env.expired = true →
      q ({ ftp with sent := ftp.sent ++ buffer }.ended true)) :
    q (after (resume env answer) ftp) := by
  rw [resume_sending hphase]
  split
  · split
    · exact hexpired ‹_› ‹_›
    · exact h.tried hmoved (after_tryFile waits_sendLoop _) fun _ hnext =>
        isData_of_isMoving (.inl hnext)
  · exact h.notifyFailed hftp

theorem receiving {buffer : WriteBuffer} (hphase : ftp.transferFile = some (.receiving buffer))
    (hftp : p ftp)
    (hexpired : ∀ read left, answer = .data read → env.expired = true → Files ftp left → p left →
      q (left.ended true))
    (hwarns : ∀ read left, answer = .data read → ftp.transferSck ≠ some true →
      ftp.canReply = true → Files ftp left → p left →
      q (left.replying { code := .transferAborted } (.warning read.length))) :
    q (after (resume env answer) ftp) := by
  rw [resume_receiving hphase]
  cases answer with
  | data read =>
      have hreceived := after_received env buffer read ftp
      dsimp only
      generalize after (tryFile _) ftp = last at hreceived
      cases hreceived with
      | goesOn htried => exact h.tried hftp htried fun _ hnext => isData_of_isMoving (.inr hnext)
      | expired hgone hfiles => exact hexpired _ _ rfl hgone hfiles (h.files hftp hfiles)
      | warns hclosed hcan hfiles => exact hwarns _ _ rfl hclosed hcan hfiles (h.files hftp hfiles)
  | eof =>
      have hwaits : Waits IsData (do
          setBytesWritten 0
          wait (.shuttingDown .incoming)) :=
        waits_bind (files_withFile _) fun _ => waits_wait trivial
      exact h.tried hftp (after_tryFile hwaits ftp) fun _ => id
  | done | failed => exact h.notifyFailed hftp

theorem warning {bytesRead : Nat} (hphase : ftp.transferFile = some (.warning bytesRead))
    (hwritten : p (after (replyWritten env answer.isDone) ftp)) :
    q (after (resume env answer) ftp) := by
  rw [resume_warning hphase]
  exact h.tried hwritten (after_tryFile (waits_commit bytesRead) _) fun _ hnext =>
    isData_of_isMoving (.inr hnext)

theorem shuttingDown {transfer : Transfer} (hphase : ftp.transferFile = some (.shuttingDown transfer))
    (hftp : p ftp) (hclosing : p { ftp with transferSck := some false }) :
    q (after (resume env answer) ftp) := by
  rcases resume_shuttingDown hphase with ⟨text, hfinish⟩ | ⟨-, -, hfailed⟩
  · obtain ⟨left, reply, hfiles, hcompletes, hreply⟩ := after_finishFile text ftp
    rw [hfinish, hreply]
    exact h.lastReply (h.files hclosing hfiles) hcompletes
  · rw [hfailed]
    exact h.notifyFailed hftp

end Phases

end BodyRule

end Rule

end FtpSession

end Wfde
