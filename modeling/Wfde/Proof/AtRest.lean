import Wfde.Proof.Turns
import Wfde.Proof.Upload

/-!
# Between two transfers

When no transfer runs everything a transfer has set is gone, and a callback that would abort a
transfer is set only as long as there is something it can close. An ABOR without a transfer, an ABOR
that the end of its transfer does not answer, and a data connection that fails in the middle of being
made break this.
-/

namespace Wfde

open Effect FtpSession

def Answer.isData : Answer → Bool
  | data _ => true
  | _ => false

namespace FtpSession

/-- Nothing is left of the last transfer. -/
structure AtRest (ftp : FtpSession) : Prop where
  abortTransfer : ftp.abortTransfer = none
  abortPending : ftp.state.abortPending = false
  currentFile : ftp.currentFile = none
  transferSck : ftp.transferSck = none

/-- What `abort_transfer_` closes is there. -/
structure CallbackValid (ftp : FtpSession) : Prop where
  acceptor : ftp.abortTransfer = some .acceptor →
    ftp.transferFile = some .accepting ∧ ftp.state.pasv.isSome = true
  transferSocket : ftp.abortTransfer = some .transferSocket → ftp.transferSck.isSome = true

section Condition

variable (ftp : FtpSession) (env : Env) (answer : Answer)

/-- The reply of the transfer that is being written gets through, and the connection lives on. -/
def writesReply : Bool :=
  answer.isDone && ftp.canReply && (ftp.state.tasksPendingAfterReply.isEmpty || env.handshake)

/-- The transfer coroutine can still come to `NotifyFailed`, which answers a pending ABOR. -/
def keepsAbort : Bool :=
  match ftp.transferFile with
  | none | some .notifying => true
  | some (.ending _) => false
  | some .announcing =>
      ftp.writesReply env answer && !env.expired && !ftp.closed && !ftp.closePending
  | some (.warning _) => ftp.writesReply env answer
  | some (.sending _) => ftp.canReply && !(answer.isDone && env.expired)
  | some (.receiving _) => ftp.canReply && !(answer.isData && env.expired)
  | some _ => ftp.canReply

/-- Accepting the data connection and its handshake fail only behind an ABOR. -/
def keepsCallback : Bool :=
  match ftp.transferFile with
  | some .accepting | some .handshaking => answer.isDone || ftp.abortTransfer.isNone
  | _ => true

/-- A step that takes none of the ways out that forget to clean up. -/
def orderly : Event → Bool
  | .request env line =>
      match ftp.handlerOf (.request env line) with
      | some entry => entry.cmd != .abor || ftp.state.isInTransfer
      | none => true
  | .transfer env answer =>
      ftp.keepsCallback answer && (!ftp.state.abortPending || ftp.keepsAbort env answer)
  | _ => true

end Condition

section Handlers

variable {cmd : FtpCmd}

/-- What the handler of a command does to a transfer, if it does not start one. -/
structure Touches (cmd : FtpCmd) (before after : FtpSession) : Prop where
  replies : after.replies = before.replies
  canReply : after.canReply = before.canReply
  closed : after.closed = before.closed
  transferSck : after.transferSck = before.transferSck
  abortTransfer : after.abortTransfer = before.abortTransfer
  abortPending : cmd ≠ .abor → after.state.abortPending = before.state.abortPending
  initiation : cmd ≠ .port → cmd ≠ .pasv → after.state.initiation = before.state.initiation
    ∧ after.state.pasv = before.state.pasv
  passive : (before.state.initiation = .pasv → before.state.pasv.isSome = true) →
    after.state.initiation = .pasv → after.state.pasv.isSome = true
  allo : cmd ≠ .allo → after.state.allo = before.state.allo
  asBinary : cmd ≠ .mlsd → after.state.overrideAsBinary = before.state.overrideAsBinary
  transfer : after.transferFile = before.transferFile ∧ after.currentFile = before.currentFile
      ∧ after.state.transfer = before.state.transfer
    ∨ cmd.startsTransfer = true ∧ after.transferFile = some .spawned
      ∧ after.state.transfer ≠ .none

instance : Std.Refl (Touches cmd) :=
  ⟨fun _ => ⟨rfl, rfl, rfl, rfl, rfl, fun _ => rfl, fun _ _ => ⟨rfl, rfl⟩, id, fun _ => rfl,
    fun _ => rfl, .inl ⟨rfl, rfl, rfl⟩⟩⟩

instance : IsTrans FtpSession (Touches cmd) where
  trans _ _ _ hab hbc :=
    { replies := hbc.replies.trans hab.replies
      canReply := hbc.canReply.trans hab.canReply
      closed := hbc.closed.trans hab.closed
      transferSck := hbc.transferSck.trans hab.transferSck
      abortTransfer := hbc.abortTransfer.trans hab.abortTransfer
      abortPending := fun h => (hbc.abortPending h).trans (hab.abortPending h)
      initiation := fun hport hpasv =>
        have hb := hab.initiation hport hpasv
        have hc := hbc.initiation hport hpasv
        ⟨hc.1.trans hb.1, hc.2.trans hb.2⟩
      passive := fun h => hbc.passive (hab.passive h)
      allo := fun h => (hbc.allo h).trans (hab.allo h)
      asBinary := fun h => (hbc.asBinary h).trans (hab.asBinary h)
      transfer := by
        rcases hbc.transfer with ⟨hphase, hfile, htransfer⟩ | hstarted
        · rw [hphase, hfile, htransfer]
          exact hab.transfer
        · exact .inr hstarted }

theorem touches_frame (cmd : FtpCmd) : Frame (Touches cmd) cmd where
  calls _ _ := by constructor <;> simp [canReply]
  state ftp state hupdates := by
    cases hupdates with
    | passive hpasv => constructor <;> simp [canReply, FtpState.setPasv, hpasv]
    | _ => constructor <;> simp_all [canReply, FtpState.setPort, FtpState.abort]
  disk _ _ _ := by constructor <;> simp [canReply]
  login _ _ _ := by constructor <;> simp [canReply]
  cwd _ _ _ := by constructor <;> simp [canReply]
  start hstarts file ftp := by
    rw [after_startTransfer]
    have htransfer : (if file.getOperation = .read then Transfer.outgoing else .incoming)
        ≠ .none := by split <;> decide
    constructor <;> simp [canReply, started, hstarts, htransfer]

theorem touches_onCmd (env : Env) (param : Bytes) (cmd : FtpCmd) :
    Keeps (Touches cmd) (cmd.onCmd env param) := (touches_frame cmd).onCmd env param

end Handlers

section Loop

/-- What the commands have set for a transfer. -/
structure Terms where
  transfer : Transfer
  initiation : Initiation
  abortPending : Bool
  rest : Nat
  allo : Nat
  overrideAsBinary : Bool

def terms (ftp : FtpSession) : Terms where
  transfer := ftp.state.transfer
  initiation := ftp.state.initiation
  abortPending := ftp.state.abortPending
  rest := ftp.state.rest
  allo := ftp.state.allo
  overrideAsBinary := ftp.state.overrideAsBinary

/-- What the command loop does to a transfer: it may close its sockets and forget the callback. -/
structure Loops (before after : FtpSession) : Prop where
  abortTransfer : after.abortTransfer = before.abortTransfer ∨ after.abortTransfer = none
  transferSck : after.transferSck.isSome = before.transferSck.isSome
  terms : after.terms = before.terms
  pasv : after.state.pasv.isSome = before.state.pasv.isSome
  transferFile : after.transferFile = before.transferFile
  currentFile : after.currentFile = before.currentFile

instance : Std.Refl Loops := ⟨fun _ => ⟨.inl rfl, rfl, rfl, rfl, rfl, rfl⟩⟩

instance : IsTrans FtpSession Loops where
  trans _ _ _ hab hbc :=
    { abortTransfer := by
        rcases hbc.abortTransfer with hsame | hnone
        · rw [hsame]
          exact hab.abortTransfer
        · exact .inr hnone
      transferSck := hbc.transferSck.trans hab.transferSck
      terms := hbc.terms.trans hab.terms
      pasv := hbc.pasv.trans hab.pasv
      transferFile := hbc.transferFile.trans hab.transferFile
      currentFile := hbc.currentFile.trans hab.currentFile }

theorem loops_frame : LoopFrame Loops where
  control _ _ := ⟨.inl rfl, rfl, rfl, rfl, rfl, rfl⟩
  closePending _ := ⟨.inl rfl, rfl, rfl, rfl, rfl, rfl⟩
  socketOpen _ := ⟨.inl rfl, rfl, rfl, rfl, rfl, rfl⟩
  closed _ := ⟨.inl rfl, rfl, rfl, rfl, rfl, rfl⟩
  replies _ _ := ⟨.inl rfl, rfl, rfl, rfl, rfl, rfl⟩
  abortTransfer _ := ⟨.inr rfl, rfl, rfl, rfl, rfl, rfl⟩
  acceptor _ := ⟨.inl rfl, rfl, rfl, by simp, rfl, rfl⟩
  transferSck _ := ⟨.inl rfl, by simp, rfl, rfl, rfl, rfl⟩

theorem loops_replyWritten (env : Env) (written : Bool) : Keeps Loops (replyWritten env written) := by
  intro ftp
  rw [after_replyWritten]
  cases written with
  | true => exact ⟨.inl rfl, rfl, rfl, rfl, rfl, rfl⟩
  | false => exact ⟨.inl rfl, rfl, rfl, rfl, rfl, rfl⟩

variable {ftp : FtpSession} {event : Event}

/-- A handler is called on what there was, and the loop goes on from what it has left. -/
theorem loops_handler {entry : Handled} (h : ftp.handlerOf event = some entry) :
    Loops ftp entry.start ∧ Loops entry.after (ftp.step event) := by
  obtain ⟨prev, hloop, -⟩ := loops_frame.of_handlerOf h
  obtain ⟨line, -, hbefore, -, -⟩ := handlerOf_eq_some h
  have hnamed : Loops entry.after { entry.after with prevCmdName := prev } :=
    ⟨.inl rfl, rfl, rfl, rfl, rfl, rfl⟩
  refine ⟨?_, IsTrans.trans _ _ _ hnamed hloop⟩
  rw [Handled.start, hbefore]
  exact ⟨.inl rfl, rfl, rfl, rfl, rfl, rfl⟩

/-- Without a handler nothing but the loop moves, or the transfer coroutine runs. -/
theorem loops_idle (h : ftp.handlerOf event = none) : Loops ftp (ftp.step event)
    ∨ ∃ env answer, event = .transfer env answer
      ∧ ftp.step event = after (resume env answer) ftp := by
  rcases loops_frame.step_other h with hloop | ⟨env, ok, next, -, hloop⟩ | htransfer
  · exact .inl hloop
  · exact .inl (IsTrans.trans _ _ _ (loops_replyWritten env ok ftp) hloop)
  · exact .inr htransfer

end Loop

section Sound

/-- What is set where the transfer coroutine waits. -/
def SoundAt (ftp : FtpSession) : TransferPhase → Prop
  | .spawned | .announcing =>
      ftp.state.initiation ≠ .none ∧ ftp.transferSck = none ∧ ftp.abortTransfer = none
  | .connecting => ftp.transferSck = none ∧ ftp.abortTransfer = none
  | .accepting =>
      ftp.transferSck = none ∧ ftp.abortTransfer ≠ some .transferSocket
        ∧ ftp.state.pasv.isSome = true
  | .ending false => ftp.abortTransfer = none
  | _ => ftp.transferSck.isSome = true ∧ ftp.abortTransfer ≠ some .acceptor

/-- A session whose transfer, if there is one, has set what belongs to its phase. -/
structure Sound (ftp : FtpSession) : Prop where
  passive : ftp.state.initiation = .pasv → ftp.state.pasv.isSome = true
  idle : ftp.transferFile = none → ftp.state.transfer = .none ∧ AtRest ftp
  busy : ∀ phase, ftp.transferFile = some phase → ftp.state.transfer ≠ .none ∧ SoundAt ftp phase

variable {ftp : FtpSession}

theorem SoundAt.of_eq {ftp' : FtpSession} {phase : TransferPhase} (h : SoundAt ftp phase)
    (hinitiation : ftp'.state.initiation = ftp.state.initiation)
    (hpasv : ftp'.state.pasv.isSome = ftp.state.pasv.isSome)
    (hsck : ftp'.transferSck.isSome = ftp.transferSck.isSome)
    (habort : ftp'.abortTransfer = ftp.abortTransfer ∨ ftp'.abortTransfer = none) :
    SoundAt ftp' phase := by
  have hnone : ftp'.transferSck = none ↔ ftp.transferSck = none := by
    rw [← Option.not_isSome_iff_eq_none, ← Option.not_isSome_iff_eq_none, hsck]
  have hkept (action : AbortAction) (hne : ftp.abortTransfer ≠ some action) :
      ftp'.abortTransfer ≠ some action := by
    rcases habort with hsame | hforgotten
    · rwa [hsame]
    · rw [hforgotten]
      exact nofun
  have hempty (hnone : ftp.abortTransfer = none) : ftp'.abortTransfer = none := by
    rcases habort with hsame | hforgotten
    · rwa [hsame]
    · exact hforgotten
  unfold SoundAt at *
  split at h
  · exact ⟨by rw [hinitiation]; exact h.1, hnone.mpr h.2.1, hempty h.2.2⟩
  · exact ⟨by rw [hinitiation]; exact h.1, hnone.mpr h.2.1, hempty h.2.2⟩
  · exact ⟨hnone.mpr h.1, hempty h.2⟩
  · exact ⟨hnone.mpr h.1, hkept _ h.2.1, by rw [hpasv]; exact h.2.2⟩
  · exact hempty h
  · exact ⟨by rw [hsck]; exact h.1, hkept _ h.2⟩

theorem Sound.of_loops {ftp' : FtpSession} (h : Sound ftp) (hloop : Loops ftp ftp') :
    Sound ftp' := by
  have hinitiation : ftp'.state.initiation = ftp.state.initiation :=
    congrArg Terms.initiation hloop.terms
  have htransfer : ftp'.state.transfer = ftp.state.transfer :=
    congrArg Terms.transfer hloop.terms
  have hpending : ftp'.state.abortPending = ftp.state.abortPending :=
    congrArg Terms.abortPending hloop.terms
  constructor
  · rw [hinitiation, hloop.pasv]
    exact h.passive
  · intro hnone
    rw [hloop.transferFile] at hnone
    obtain ⟨hidle, hrest⟩ := h.idle hnone
    refine ⟨htransfer.trans hidle, ?_, hpending.trans hrest.abortPending,
      hloop.currentFile.trans hrest.currentFile, ?_⟩
    · rcases hloop.abortTransfer with hsame | hforgotten
      · exact hsame.trans hrest.abortTransfer
      · exact hforgotten
    · rw [← Option.not_isSome_iff_eq_none, hloop.transferSck, hrest.transferSck]
      simp
  · intro phase hphase
    rw [hloop.transferFile] at hphase
    obtain ⟨hbusy, hat⟩ := h.busy phase hphase
    exact ⟨by rwa [htransfer], hat.of_eq hinitiation hloop.pasv hloop.transferSck hloop.abortTransfer⟩

theorem startsTransfer_eq_true {cmd : FtpCmd} (h : cmd.startsTransfer = true) :
    cmd.mustNotBeInTransfer = true ∧ cmd.needPostOrPasv = true ∧ cmd ≠ .port ∧ cmd ≠ .pasv := by
  cases cmd <;> simp_all [FtpCmd.startsTransfer, FtpCmd.mustNotBeInTransfer, FtpCmd.needPostOrPasv]

/-- **Handlers.** None but ABOR disturbs a session at rest, and a transfer is started only from
there. -/
theorem Sound.of_touches {cmd : FtpCmd} {ftp' : FtpSession} (h : Sound ftp)
    (htouches : Touches cmd ftp ftp')
    (hbusy : ftp.transferFile ≠ none → cmd.mustNotBeInTransfer = false)
    (hpasv : cmd.needPostOrPasv = true → ftp.state.initiation ≠ .none)
    (habor : cmd = .abor → ftp.transferFile ≠ none) : Sound ftp' := by
  refine ⟨htouches.passive h.passive, ?_, ?_⟩
  · intro hnone
    rcases htouches.transfer with ⟨hphase, hfile, htransfer⟩ | ⟨-, hspawned, -⟩
    · rw [hphase] at hnone
      obtain ⟨hidle, hrest⟩ := h.idle hnone
      have hcmd : cmd ≠ .abor := fun hcmd => habor hcmd hnone
      exact ⟨htransfer.trans hidle, htouches.abortTransfer.trans hrest.abortTransfer,
        (htouches.abortPending hcmd).trans hrest.abortPending, hfile.trans hrest.currentFile,
        htouches.transferSck.trans hrest.transferSck⟩
    · rw [hspawned] at hnone
      cases hnone
  · intro phase hphase'
    rcases htouches.transfer with ⟨hphase, -, htransfer⟩ | ⟨hstarts, hspawned, htransfer⟩
    · rw [hphase] at hphase'
      obtain ⟨hin, hat⟩ := h.busy phase hphase'
      have hcmd := hbusy (by rw [hphase']; simp)
      obtain ⟨hinitiation, hacceptor⟩ := htouches.initiation (by rintro rfl; cases hcmd)
        (by rintro rfl; cases hcmd)
      refine ⟨by rwa [htransfer], hat.of_eq hinitiation ?_ ?_ (.inl htouches.abortTransfer)⟩
      · rw [hacceptor]
      · rw [htouches.transferSck]
    · obtain ⟨hnot, hneeds, hport, hpasvCmd⟩ := startsTransfer_eq_true hstarts
      have hnone : ftp.transferFile = none := by
        by_contra hsome
        rw [hbusy hsome] at hnot
        cases hnot
      obtain ⟨-, hrest⟩ := h.idle hnone
      rw [hspawned] at hphase'
      obtain rfl := Option.some.inj hphase'
      refine ⟨htransfer, ?_, htouches.transferSck.trans hrest.transferSck,
        htouches.abortTransfer.trans hrest.abortTransfer⟩
      rw [(htouches.initiation hport hpasvCmd).1]
      exact hpasv hneeds

theorem Sound.isInTransfer_iff (h : Sound ftp) :
    ftp.transferFile ≠ none ↔ ftp.state.isInTransfer = true := by
  rw [FtpState.isInTransfer, bne_iff_ne]
  constructor
  · intro hsome
    obtain ⟨phase, hphase⟩ := Option.ne_none_iff_exists'.mp hsome
    exact (h.busy phase hphase).1
  · intro hbusy hnone
    exact hbusy (h.idle hnone).1

theorem Sound.handler {event : Event} {entry : Handled} (h : Sound ftp)
    (hhandler : ftp.handlerOf event = some entry)
    (habor : entry.cmd = .abor → ftp.state.isInTransfer = true) : Sound (ftp.step event) := by
  obtain ⟨hstart, hloop⟩ := loops_handler hhandler
  have haccepts := accepts_of_handlerOf hhandler
  have hin := h.isInTransfer_iff
  refine Sound.of_loops ?_ hloop
  refine (h.of_loops hstart).of_touches (touches_onCmd entry.env entry.param entry.cmd entry.start)
    ?_ ?_ ?_
  · intro hsome
    rw [hstart.transferFile, hin] at hsome
    cases hnot : entry.cmd.mustNotBeInTransfer with
    | false => rfl
    | true =>
        rw [haccepts.notInTransfer hnot] at hsome
        cases hsome
  · intro hneeds
    have hhave := haccepts.pasvOrPost hneeds
    rw [FtpState.havePasvOrPost, bne_iff_ne] at hhave
    have hsame : entry.start.state.initiation = ftp.state.initiation :=
      congrArg Terms.initiation hstart.terms
    rwa [hsame]
  · intro hcmd
    rw [hstart.transferFile, hin]
    exact habor hcmd

end Sound

section Turns

variable {ftp left : FtpSession}

/-- No ABOR is pending, or the reply that answers it can be written. -/
def Clear (ftp : FtpSession) : Prop := ftp.state.abortPending = true → ftp.canReply = true

/-- A transfer that has its connection. -/
structure Running (ftp : FtpSession) : Prop where
  busy : ftp.state.transfer ≠ .none
  passive : ftp.state.initiation = .pasv → ftp.state.pasv.isSome = true
  transferSck : ftp.transferSck.isSome = true
  abortTransfer : ftp.abortTransfer ≠ some .acceptor

def IsRunning : TransferPhase → Prop
  | .handshaking | .sending _ | .receiving _ | .warning _ | .shuttingDown _ | .notifying
  | .ending true => True
  | _ => False

theorem Running.of_files (h : Running ftp) (hfiles : Files ftp left) : Running left := by
  rw [hfiles]
  exact ⟨h.busy, h.passive, h.transferSck, h.abortTransfer⟩

theorem Clear.of_files (h : Clear ftp) (hfiles : Files ftp left) : Clear left := by
  rw [hfiles]
  exact h

theorem soundAt_iff {phase : TransferPhase} (hphase : IsRunning phase) :
    SoundAt ftp phase
      ↔ ftp.transferSck.isSome = true ∧ ftp.abortTransfer ≠ some .acceptor := by
  unfold SoundAt
  split
  · exact hphase.elim
  · exact hphase.elim
  · exact hphase.elim
  · exact hphase.elim
  · exact hphase.elim
  · exact Iff.rfl

theorem Running.sound (h : Running ftp) {phase : TransferPhase}
    (hwaits : ftp.transferFile = some phase) (hphase : IsRunning phase) : Sound ftp := by
  refine ⟨h.passive, fun hnone => ?_, fun phase' hphase' => ⟨h.busy, ?_⟩⟩
  · rw [hwaits] at hnone
    cases hnone
  · obtain rfl := Option.some.inj (hwaits.symm.trans hphase')
    exact (soundAt_iff hphase).mpr ⟨h.transferSck, h.abortTransfer⟩

theorem sound_ended {resetAbort : Bool} (hpending : ftp.state.abortPending = false)
    (habort : resetAbort = false → ftp.abortTransfer = none) : Sound (ftp.ended resetAbort) := by
  refine ⟨nofun, fun _ => ⟨rfl, ?_, hpending, rfl, rfl⟩, nofun⟩
  cases resetAbort with
  | true => rfl
  | false => exact habort rfl

theorem Running.replying (h : Running ftp) (reply : FtpReply) {phase : TransferPhase}
    (hphase : IsRunning phase) : Sound (ftp.replying reply phase) := by
  have hreplying : Running (ftp.replying reply phase) :=
    ⟨h.busy, h.passive, h.transferSck, h.abortTransfer⟩
  exact hreplying.sound rfl hphase

theorem isRunning_of_isData {phase : TransferPhase} (h : IsData phase) : IsRunning phase := by
  cases phase with
  | sending | receiving | shuttingDown => trivial
  | _ => exact h.elim

theorem sound_rule : BodyRule (fun ftp => Running ftp ∧ Clear ftp) Sound where
  files h hfiles := ⟨h.1.of_files hfiles, h.2.of_files hfiles⟩
  waits {ftp phase} h hphase := by
    have hwaits : Running { ftp with transferFile := some phase } :=
      ⟨h.1.busy, h.1.passive, h.1.transferSck, h.1.abortTransfer⟩
    exact hwaits.sound rfl (isRunning_of_isData hphase)
  replies h _ _ := h.1.replying _ trivial
  notifies h _ := h.1.replying _ trivial
  ends h hcan := by
    refine sound_ended ?_ nofun
    by_contra hset
    have hcannot := h.2 (by simpa using hset)
    rw [hcan] at hcannot
    cases hcannot

theorem sound_connected (hbusy : ftp.state.transfer ≠ .none)
    (hpassive : ftp.state.initiation = .pasv → ftp.state.pasv.isSome = true) (hclear : Clear ftp) :
    Sound (after connected ftp) := by
  have hrunning (phase : Option TransferPhase) : Running { ftp with
      abortTransfer := some .transferSocket
      transferSck := some true
      transferFile := phase } := ⟨hbusy, hpassive, rfl, by simp⟩
  rw [after_connected]
  split
  · exact (hrunning _).sound rfl trivial
  · exact sound_rule.transferData ⟨hrunning _, hclear⟩

theorem sound_cantOpenDataConn (hbusy : ftp.state.transfer ≠ .none)
    (hpassive : ftp.state.initiation = .pasv → ftp.state.pasv.isSome = true) (hclear : Clear ftp)
    (habort : ftp.abortTransfer = none) : Sound (after cantOpenDataConn ftp) := by
  rw [cantOpenDataConn, after_lastReply]
  split
  · refine ⟨hpassive, fun hnone => (by cases hnone), fun phase hphase => ?_⟩
    obtain rfl := Option.some.inj hphase
    exact ⟨hbusy, habort⟩
  · rename_i hcan
    exact sound_ended (by simpa using mt hclear hcan) fun _ => habort

theorem sound_announced {phase : TransferPhase} (h : Sound ftp) (hphase : ftp.transferFile = some phase)
    (hstarting : phase = .spawned ∨ phase = .announcing) (env : Env)
    (hpending : ftp.state.abortPending = true →
      (ftp.replyFailed || env.expired || ftp.closed || ftp.closePending) = false) :
    Sound (after (announced env) ftp) := by
  obtain ⟨hbusy, hat⟩ := h.busy phase hphase
  replace hat : ftp.state.initiation ≠ .none ∧ ftp.transferSck = none ∧ ftp.abortTransfer = none := by
    rcases hstarting with rfl | rfl <;> exact hat
  obtain ⟨hinitiation, hsck, habort⟩ := hat
  rw [after_announced]
  split
  · rename_i hgone
    have hnot : ftp.state.abortPending = false := by
      by_contra hset
      rw [hpending (by simpa using hset)] at hgone
      cases hgone
    exact ⟨nofun, fun _ => ⟨rfl, habort, hnot, rfl, hsck⟩, nofun⟩
  · split
    · refine ⟨h.passive, nofun, fun phase hphase => ?_⟩
      obtain rfl := Option.some.inj hphase
      exact ⟨hbusy, hsck, habort⟩
    · rename_i hport
      refine ⟨h.passive, nofun, fun phase hphase => ?_⟩
      obtain rfl := Option.some.inj hphase
      refine ⟨hbusy, hsck, by simp, h.passive ?_⟩
      cases hcase : ftp.state.initiation with
      | none => exact absurd hcase hinitiation
      | port => exact absurd hcase hport
      | pasv => rfl

theorem canReply_replyWritten {env : Env} {answer : Answer}
    (h : ftp.writesReply env answer = true) :
    (after (replyWritten env answer.isDone) ftp).canReply = true := by
  simp only [writesReply, Bool.and_eq_true] at h
  obtain ⟨⟨hdone, hcan⟩, htasks⟩ := h
  rw [after_replyWritten, if_pos hdone]
  simp only [canReply, Bool.and_eq_true] at hcan ⊢
  exact ⟨hcan.1, hcan.2, htasks⟩

/-- Where the reply to the start of a transfer has been written, the transfer goes on. -/
theorem goesOn_replyWritten {env : Env} {answer : Answer}
    (h : (ftp.writesReply env answer && !env.expired && !ftp.closed && !ftp.closePending) = true) :
    let written := after (replyWritten env answer.isDone) ftp
    (written.replyFailed || env.expired || written.closed || written.closePending) = false := by
  intro written
  simp only [Bool.and_eq_true, Bool.not_eq_true'] at h
  obtain ⟨⟨⟨hwrites, hexpired⟩, hclosed⟩, hclosePending⟩ := h
  have hcan : written.canReply = true := canReply_replyWritten hwrites
  simp only [canReply, Bool.and_eq_true, Bool.not_eq_true'] at hcan
  have hflags : written.closed = ftp.closed ∧ written.closePending = ftp.closePending := by
    simp only [written, after_replyWritten]
    split <;> exact ⟨rfl, rfl⟩
  rw [hcan.1, hexpired, hflags.1, hclosed, hflags.2, hclosePending]
  rfl

theorem Sound.running {phase : TransferPhase} (h : Sound ftp)
    (hwaits : ftp.transferFile = some phase) (hphase : IsRunning phase) : Running ftp :=
  have ⟨hbusy, hat⟩ := h.busy phase hwaits
  have ⟨hsck, habort⟩ := (soundAt_iff hphase).mp hat
  ⟨hbusy, h.passive, hsck, habort⟩

theorem Sound.resume (h : Sound ftp) {env : Env} {answer : Answer}
    (hcallback : ftp.keepsCallback answer = true)
    (habort : ftp.state.abortPending = true → ftp.keepsAbort env answer = true) :
    Sound (after (resume env answer) ftp) := by
  cases hphase : ftp.transferFile with
  | none =>
      rw [resume_of_none hphase]
      exact h
  | some phase =>
      obtain ⟨hbusy, hat⟩ := h.busy phase hphase
      let written := after (replyWritten env answer.isDone) ftp
      have hloops : Loops ftp written := loops_replyWritten env _ ftp
      have hwritten : Sound written := h.of_loops hloops
      have hsame : written.transferFile = some phase := hloops.transferFile.trans hphase
      have hpending : written.state.abortPending = ftp.state.abortPending :=
        congrArg Terms.abortPending hloops.terms
      rw [keepsAbort, hphase] at habort
      rw [keepsCallback, hphase] at hcallback
      cases phase with
      | spawned =>
          rw [resume_spawned hphase]
          split
          · refine ⟨h.passive, fun hnone => (by cases hnone), fun phase hphase => ?_⟩
            obtain rfl := Option.some.inj hphase
            exact ⟨hbusy, hat⟩
          · rename_i hcan
            exact sound_announced h hphase (.inl rfl) env fun hpending => absurd (habort hpending) hcan
      | announcing =>
          rw [resume_announcing hphase]
          refine sound_announced hwritten hsame (.inr rfl) env fun hset => ?_
          exact goesOn_replyWritten (habort (hpending.symm.trans hset))
      | connecting =>
          rw [resume_connecting hphase]
          split
          · exact sound_connected hbusy h.passive habort
          · exact sound_cantOpenDataConn hbusy h.passive habort hat.2
      | accepting =>
          rw [resume_accepting hphase]
          split
          · exact sound_connected hbusy h.passive habort
          · rename_i hnot
            exact sound_cantOpenDataConn hbusy h.passive habort (by simpa [hnot] using hcallback)
      | handshaking =>
          rw [resume_handshaking hphase]
          split
          · exact sound_rule.transferData ⟨h.running hphase trivial, habort⟩
          · rename_i hnot
            exact sound_cantOpenDataConn hbusy h.passive habort (by simpa [hnot] using hcallback)
      | sending buffer =>
          have hrunning := h.running hphase trivial
          have hmoved : Running { ftp with sent := ftp.sent ++ buffer } :=
            ⟨hrunning.busy, hrunning.passive, hrunning.transferSck, hrunning.abortTransfer⟩
          have hclear : Clear ftp := fun hset => (Bool.and_eq_true _ _ ▸ habort hset).1
          refine sound_rule.sending hphase ⟨hrunning, hclear⟩ ⟨hmoved, hclear⟩ ?_
          intro hdone hexpired
          refine sound_ended ?_ fun hkept => by cases hkept
          by_contra hset
          simpa [hdone, hexpired] using habort (by simpa using hset)
      | receiving buffer =>
          have hrunning := h.running hphase trivial
          have hclear : Clear ftp := fun hset => (Bool.and_eq_true _ _ ▸ habort hset).1
          refine sound_rule.receiving hphase ⟨hrunning, hclear⟩ ?_ ?_
          · rintro read left rfl hexpired hfiles -
            refine sound_ended ?_ fun hkept => by cases hkept
            rw [hfiles]
            by_contra hset
            simpa [hexpired, Answer.isData] using habort (by simpa using hset)
          · intro read left _ _ _ _ hleft
            exact hleft.1.replying _ trivial
      | warning count =>
          have hclear : Clear written := fun hset =>
            canReply_replyWritten (habort (hpending.symm.trans hset))
          exact sound_rule.warning hphase ⟨hwritten.running hsame trivial, hclear⟩
      | shuttingDown transfer =>
          have hrunning := h.running hphase trivial
          have hclosing : Running { ftp with transferSck := some false } :=
            ⟨hrunning.busy, hrunning.passive, rfl, hrunning.abortTransfer⟩
          exact sound_rule.shuttingDown hphase ⟨hrunning, habort⟩ ⟨hclosing, habort⟩
      | notifying =>
          have hrunning := hwritten.running hsame trivial
          rw [resume_notifying hphase, after_notified]
          split
          · have hanswered : Running
                { written with state := { written.state with abortPending := false } } :=
              ⟨hrunning.busy, hrunning.passive, hrunning.transferSck, hrunning.abortTransfer⟩
            exact sound_rule.lastReply ⟨hanswered, fun hset => by cases hset⟩ rfl
          · rename_i hset
            exact sound_ended (by simpa using hset) fun hkept => by cases hkept
      | ending resetAbort =>
          rw [resume_ending hphase]
          refine sound_ended ?_ ?_
          · rw [show (after (replyWritten env answer.isDone) ftp).state.abortPending = _ from hpending]
            by_contra hset
            exact Bool.false_ne_true (habort (by simpa using hset))
          · rintro rfl
            exact (hwritten.busy _ hsame).2

end Turns

section Marks

variable {ftp left : FtpSession} {env : Env} {answer : Answer}

/-- The direction of the transfer, and what REST, ALLO and MLSD set for it. -/
structure Marks where
  transfer : Transfer := .none
  rest : Nat := 0
  allo : Nat := 0
  overrideAsBinary : Bool := false

def marks (ftp : FtpSession) : Marks where
  transfer := ftp.state.transfer
  rest := ftp.state.rest
  allo := ftp.state.allo
  overrideAsBinary := ftp.state.overrideAsBinary

structure Cleared (ftp : FtpSession) : Prop where
  transferFile : ftp.transferFile = none
  currentFile : ftp.currentFile = none
  marks : ftp.marks = {}

/-- The coroutine waits and has left the marks alone, or they are cleared. -/
def Settles (marks : Marks) (ftp : FtpSession) : Prop :=
  ftp.transferFile ≠ none ∧ ftp.marks = marks ∨ Cleared ftp

theorem Loops.marks (h : Loops ftp left) : left.marks = ftp.marks := by
  have htransfer : left.state.transfer = ftp.state.transfer := congrArg Terms.transfer h.terms
  have hrest : left.state.rest = ftp.state.rest := congrArg Terms.rest h.terms
  have hallo : left.state.allo = ftp.state.allo := congrArg Terms.allo h.terms
  have hbinary : left.state.overrideAsBinary = ftp.state.overrideAsBinary :=
    congrArg Terms.overrideAsBinary h.terms
  rw [FtpSession.marks, htransfer, hrest, hallo, hbinary]
  rfl

theorem marks_of_plan (h : left.plan = ftp.plan) : left.marks = ftp.marks := by
  have hmarks (ftp : FtpSession) : ftp.marks =
      { transfer := ftp.plan.transfer
        rest := ftp.plan.rest
        allo := ftp.plan.allo
        overrideAsBinary := ftp.plan.overrideAsBinary } := rfl
  rw [hmarks, h, hmarks]

theorem settles_resume (h : ftp.transferFile ≠ none) :
    Settles ftp.marks (after (resume env answer) ftp) := by
  obtain ⟨phase, hphase⟩ := Option.ne_none_iff_exists'.mp h
  have hturn : Turn ftp answer phase (after (resume env answer) ftp) :=
    turn_resume env hphase
  cases hturn with
  | waits hnext _ hplan _ =>
      refine .inl ⟨?_, marks_of_plan hplan⟩
      rw [hnext]
      exact nofun
  | ends hends _ =>
      refine .inr ⟨hends.transferFile, hends.currentFile, ?_⟩
      have hreset : (after (resume env answer) ftp).plan = (ftp.ended true).plan := hends.plan
      rw [marks_of_plan hreset]
      rfl

/-- The marks that no handler of the list has set. -/
structure Unset (handlers : List Handled) (ftp : FtpSession) : Prop where
  rest : (∀ entry ∈ handlers, entry.cmd ≠ .rest) → ftp.state.rest = 0
  allo : (∀ entry ∈ handlers, entry.cmd ≠ .allo) → ftp.state.allo = 0
  overrideAsBinary : (∀ entry ∈ handlers, entry.cmd ≠ .mlsd) → ftp.state.overrideAsBinary = false

theorem unset_of_marks {handlers : List Handled} (h : ftp.marks = {}) : Unset handlers ftp :=
  ⟨fun _ => congrArg Marks.rest h, fun _ => congrArg Marks.allo h,
    fun _ => congrArg Marks.overrideAsBinary h⟩

theorem Unset.of_marks {handlers : List Handled} (h : Unset handlers ftp)
    (hmarks : left.marks = ftp.marks) : Unset handlers left :=
  ⟨fun hnone => (congrArg Marks.rest hmarks).trans (h.rest hnone),
    fun hnone => (congrArg Marks.allo hmarks).trans (h.allo hnone),
    fun hnone => (congrArg Marks.overrideAsBinary hmarks).trans (h.overrideAsBinary hnone)⟩

theorem Unset.step {past : List Handled} (h : Unset past ftp) (event : Event) :
    Unset (past ++ (ftp.handlerOf event).toList) (ftp.step event) := by
  cases hhandler : ftp.handlerOf event with
  | some entry =>
      obtain ⟨hstart, hloop⟩ := loops_handler hhandler
      have hleaves := keeps_onCmd entry.env entry.param entry.cmd entry.start
      have htouches := touches_onCmd entry.env entry.param entry.cmd entry.start
      have hunset := h.of_marks hstart.marks
      suffices hafter : Unset (past ++ [entry]) entry.after from hafter.of_marks hloop.marks
      refine ⟨fun hnone => ?_, fun hnone => ?_, fun hnone => ?_⟩ <;>
        simp only [List.forall_mem_append, List.forall_mem_singleton] at hnone
      · exact (hleaves.rest hnone.2).trans (hunset.rest hnone.1)
      · exact (htouches.allo hnone.2).trans (hunset.allo hnone.1)
      · exact (htouches.asBinary hnone.2).trans (hunset.overrideAsBinary hnone.1)
  | none =>
      rw [Option.toList_none, List.append_nil]
      rcases loops_idle hhandler with hloop | ⟨env, answer, rfl, hstep⟩
      · exact h.of_marks hloop.marks
      · rw [hstep]
        by_cases hphase : ftp.transferFile = none
        · rw [resume_of_none hphase]
          exact h
        · have hsettles : Settles ftp.marks (after (resume env answer) ftp) := settles_resume hphase
          rcases hsettles with ⟨-, hmarks⟩ | hcleared
          · exact h.of_marks hmarks
          · exact unset_of_marks hcleared.marks

def EndsTransfer (ftp : FtpSession) (event : Event) : Prop :=
  ftp.transferFile ≠ none ∧ (ftp.step event).transferFile = none

theorem EndsTransfer.marks {event : Event} (h : EndsTransfer ftp event) :
    (ftp.step event).marks = {} := by
  obtain ⟨hphase, hnone⟩ := h
  cases hhandler : ftp.handlerOf event with
  | some entry =>
      obtain ⟨hstart, hloop⟩ := loops_handler hhandler
      have hsame : entry.after.transferFile = (ftp.step event).transferFile := hloop.transferFile.symm
      rcases (touches_onCmd entry.env entry.param entry.cmd entry.start).transfer with
        ⟨hkept, -, -⟩ | ⟨-, hspawned, -⟩
      · refine absurd ?_ hphase
        calc
          ftp.transferFile = entry.start.transferFile := hstart.transferFile.symm
          _ = entry.after.transferFile := hkept.symm
          _ = (ftp.step event).transferFile := hsame
          _ = none := hnone
      · rw [show after _ _ = entry.after from rfl, hsame, hnone] at hspawned
        cases hspawned
  | none =>
      rcases loops_idle hhandler with hloop | ⟨env, answer, rfl, hstep⟩
      · exact absurd (hloop.transferFile.symm.trans hnone) hphase
      · rw [hstep] at hnone ⊢
        exact ((settles_resume hphase).resolve_left fun hwaits => hwaits.1 hnone).marks

/-- No file is open unless the coroutine lives, and then the protocol is in transfer. -/
structure Tidy (ftp : FtpSession) : Prop where
  closed : ftp.transferFile = none → ftp.currentFile = none
  busy : ftp.transferFile ≠ none → ftp.state.transfer ≠ .none

theorem Tidy.of_loops (h : Tidy ftp) (hloop : Loops ftp left) : Tidy left := by
  have htransfer : left.state.transfer = ftp.state.transfer :=
    congrArg Terms.transfer hloop.terms
  refine ⟨?_, ?_⟩
  · rw [hloop.transferFile, hloop.currentFile]
    exact h.closed
  · rw [hloop.transferFile, htransfer]
    exact h.busy

theorem Tidy.step (h : Tidy ftp) (event : Event) : Tidy (ftp.step event) := by
  cases hhandler : ftp.handlerOf event with
  | some entry =>
      obtain ⟨hstart, hloop⟩ := loops_handler hhandler
      refine Tidy.of_loops ?_ hloop
      have hbefore := h.of_loops hstart
      rcases (touches_onCmd entry.env entry.param entry.cmd entry.start).transfer with
        ⟨hphase, hfile, htransfer⟩ | ⟨-, hspawned, htransfer⟩
      · refine ⟨?_, ?_⟩
        · rw [show entry.after.transferFile = _ from hphase, show entry.after.currentFile = _ from hfile]
          exact hbefore.closed
        · rw [show entry.after.transferFile = _ from hphase,
            show entry.after.state.transfer = _ from htransfer]
          exact hbefore.busy
      · refine ⟨fun hnone => ?_, fun _ => htransfer⟩
        rw [show entry.after.transferFile = _ from hspawned] at hnone
        cases hnone
  | none =>
      rcases loops_idle hhandler with hloop | ⟨env, answer, rfl, hstep⟩
      · exact h.of_loops hloop
      · rw [hstep]
        by_cases hphase : ftp.transferFile = none
        · rwa [resume_of_none hphase]
        · have hsettles : Settles ftp.marks (after (resume env answer) ftp) := settles_resume hphase
          rcases hsettles with ⟨hwaits, hmarks⟩ | hcleared
          · have htransfer : (after (resume env answer) ftp).state.transfer = ftp.state.transfer :=
              congrArg Marks.transfer hmarks
            refine ⟨fun hnone => absurd hnone hwaits, fun _ => ?_⟩
            rw [htransfer]
            exact h.busy hphase
          · exact ⟨fun _ => hcleared.currentFile, fun hsome => absurd hcleared.transferFile hsome⟩

/-- **In every run** a file is open only as long as its transfer runs. -/
theorem tidy_run (permissions : Permissions) (disk : Disk) (segmentSize : Nat)
    (events : List Event) : Tidy ((fresh permissions disk segmentSize).run events) :=
  Machine.run_induction _ Tidy (fun _ event h => h.step event)
    ⟨fun _ => rfl, fun hsome => absurd rfl hsome⟩ events

end Marks

section Runs

variable {ftp : FtpSession}

theorem Sound.step (h : Sound ftp) {event : Event} (horderly : ftp.orderly event = true) :
    Sound (ftp.step event) := by
  cases hhandler : ftp.handlerOf event with
  | some entry =>
      refine h.handler hhandler fun hcmd => ?_
      obtain ⟨line, rfl, -, -, -⟩ := handlerOf_eq_some hhandler
      simpa [orderly, hhandler, hcmd] using horderly
  | none =>
      rcases loops_idle hhandler with hloop | ⟨env, answer, rfl, hstep⟩
      · exact h.of_loops hloop
      · rw [hstep]
        simp only [orderly, Bool.and_eq_true, Bool.or_eq_true, Bool.not_eq_true'] at horderly
        refine h.resume horderly.1 fun hpending => ?_
        exact horderly.2.resolve_left (by simp [hpending])

theorem Sound.run (h : Sound ftp) {events : List Event}
    (horderly : Machine.Along FtpSession.step (fun ftp event => ftp.orderly event = true) ftp events) :
    Sound (ftp.run events) :=
  Machine.run_induction_along _ Sound (fun _ _ horderly h => h.step horderly) h horderly

theorem Sound.callbackValid (h : Sound ftp) : CallbackValid ftp := by
  have hbusy {action : AbortAction} (hset : ftp.abortTransfer = some action) :
      ∃ phase, ftp.transferFile = some phase ∧ SoundAt ftp phase := by
    cases hphase : ftp.transferFile with
    | none =>
        rw [(h.idle hphase).2.abortTransfer] at hset
        cases hset
    | some phase => exact ⟨phase, rfl, (h.busy phase hphase).2⟩
  constructor
  · intro hset
    obtain ⟨phase, hphase, hat⟩ := hbusy hset
    unfold SoundAt at hat
    split at hat <;> simp_all
  · intro hset
    obtain ⟨phase, hphase, hat⟩ := hbusy hset
    unfold SoundAt at hat
    split at hat <;> simp_all

theorem sound_fresh (permissions : Permissions) (disk : Disk) (segmentSize : Nat) :
    Sound (fresh permissions disk segmentSize) :=
  ⟨nofun, fun _ => ⟨rfl, rfl, rfl, rfl, rfl⟩, nofun⟩

theorem unset_of_endsTransfer {event : Event} (h : EndsTransfer ftp event) (back : List Event) :
    Unset ((ftp.step event).history back) ((ftp.step event).run back) := by
  have hunset : Unset [] (ftp.step event) := unset_of_marks h.marks
  exact Machine.trace_induction _ _ Unset (fun _ _ event h => h.step event) hunset back

end Runs

end FtpSession

section Results

/-- **Transfer state.** In a run whose steps are all orderly, nothing is left of a transfer when none
runs, and the callback is never set without what it closes. In every run, what REST, ALLO and MLSD
have set is cleared by the end of a transfer. -/
theorem atRest_of_orderly (permissions : Permissions) (disk : Disk) (segmentSize : Nat)
    (events : List Event)
    (h : Machine.Along FtpSession.step (fun ftp event => ftp.orderly event = true)
      (fresh permissions disk segmentSize) events) :
    (((fresh permissions disk segmentSize).run events).state.transfer = .none →
        ((fresh permissions disk segmentSize).run events).transferFile = none →
        AtRest ((fresh permissions disk segmentSize).run events))
      ∧ CallbackValid ((fresh permissions disk segmentSize).run events)
      ∧ ∀ front event back, events = front ++ event :: back →
        EndsTransfer ((fresh permissions disk segmentSize).run front) event →
        Unset (((fresh permissions disk segmentSize).run (front ++ [event])).history back)
          ((fresh permissions disk segmentSize).run events) := by
  have hsound := (sound_fresh permissions disk segmentSize).run h
  refine ⟨fun _ hnone => (hsound.idle hnone).2, hsound.callbackValid, ?_⟩
  rintro front event back rfl hends
  have hfront : (fresh permissions disk segmentSize).run (front ++ [event])
      = ((fresh permissions disk segmentSize).run front).step event :=
    Machine.run_append _ _ front [event]
  have hrun : (fresh permissions disk segmentSize).run (front ++ event :: back)
      = (((fresh permissions disk segmentSize).run front).step event).run back :=
    Machine.run_append _ _ front (event :: back)
  rw [hfront, hrun]
  exact unset_of_endsTransfer hends back

/-- A download that is aborted between two of its turns. -/
theorem atRest_of_orderly_aborted :
    AtRest ((fresh oneMount (oneFileDisk [7, 8]) 4096).run (transferOf "RETR a"
      ++ turns [.done, .done, .done] ++ [.request joeEnv (bytes "ABOR")]
      ++ turns [.failed, .done, .done])) :=
  (atRest_of_orderly oneMount (oneFileDisk [7, 8]) 4096 _ (by decide +kernel)).1
    (by decide +kernel) (by decide +kernel)

/-- A client that never connects to the port PASV has named. -/
def unaccepted : List Event :=
  let env : Env := { joeEnv with listen := some {} }
  [.start env, .written env true] ++ exchange "USER joe"
    ++ [.request env (bytes "PASV"), .written env true, .request env (bytes "RETR a")]
    ++ turns [.done, .done, .failed, .done]

/-- The callback is left behind without the acceptor it would close. -/
theorem not_atRest_unaccepted :
    let ftp := (fresh oneMount (oneFileDisk [7, 8]) 4096).run unaccepted
    ftp.replies.map FtpReply.code
        = [.ready, .loggedIn, .passive, .openingConnection, .cantOpenDataConn]
      ∧ ftp.state.transfer = .none ∧ ftp.transferFile = none
      ∧ ¬ AtRest ftp ∧ ¬ CallbackValid ftp := by
  intro ftp
  have habort : ftp.abortTransfer = some .acceptor := rfl
  refine ⟨by decide, rfl, rfl, fun hrest => ?_, fun hvalid => ?_⟩
  · cases habort.symm.trans hrest.abortTransfer
  · cases (hvalid.acceptor habort).1

end Results

end Wfde
