import Wfde.Proof.TransferFrame

/-!
# The phases of a transfer

What a turn of `TransferFile` does before `SendFile` or `ReceiveFile` is entered, and what it does when
all that is left is to reply. The file is not touched before the data, and only closed behind it. So
what is known of a transfer from one wait to the next is a matter of the data alone.
-/

namespace Wfde

open Effect

/-- A turn of the transfer coroutine. -/
def Event.isTransfer : Event → Bool
  | transfer _ _ => true
  | _ => false

theorem Event.isTransfer_eq_true {event : Event} :
    event.isTransfer = true ↔ ∃ env answer, event = .transfer env answer := by
  cases event <;> simp [isTransfer]

/-- So many turns at most lead from a wait to `SendFile` or `ReceiveFile`. -/
def TransferPhase.toData : TransferPhase → Nat
  | spawned => 4
  | announcing => 3
  | connecting | accepting => 2
  | handshaking => 1
  | _ => 0

namespace FtpSession

/-- A step, as long as the transfer coroutine lives. -/
def stepTransfer (ftp : FtpSession) (event : Event) : FtpSession :=
  if ftp.transferFile.isSome then ftp.step event else ftp

/-- A transfer to its end, with whatever the command loop does meanwhile. -/
def runTransfer (ftp : FtpSession) (events : List Event) : FtpSession :=
  Machine.run stepTransfer ftp events

/-- A step of a transfer is a turn of the coroutine, or leaves its work alone. -/
theorem stepTransfer_cases {ftp : FtpSession}
    (hin : ftp.transferFile.isSome = true → ftp.state.isInTransfer = true) (event : Event) :
    event.isTransfer = false ∧ (stepTransfer ftp event).work = ftp.work
      ∨ ∃ env answer, event = .transfer env answer
        ∧ stepTransfer ftp event = after (resume env answer) ftp := by
  cases htransfer : event.isTransfer with
  | true =>
      obtain ⟨env, answer, rfl⟩ := Event.isTransfer_eq_true.mp htransfer
      refine .inr ⟨env, answer, rfl, ?_⟩
      cases hphase : ftp.transferFile with
      | none => rw [stepTransfer, hphase, resume_of_none hphase]; rfl
      | some phase => rw [stepTransfer, hphase]; rfl
  | false =>
      refine .inl ⟨rfl, ?_⟩
      unfold stepTransfer
      split
      · rename_i halive
        refine work_step (hin halive) fun env answer heq => ?_
        rw [heq] at htransfer
        cases htransfer
      · rfl

/-- The file, the disk, the bytes sent and the direction of the transfer. -/
structure Cargo where
  currentFile : Option File
  disk : Disk
  sent : Bytes
  transfer : Transfer

def cargo (ftp : FtpSession) : Cargo where
  currentFile := ftp.currentFile
  disk := ftp.disk
  sent := ftp.sent
  transfer := ftp.state.transfer

/-- A session whose transfer has come to its end with the file as it was. -/
structure Gone (ftp left : FtpSession) : Prop where
  transferFile : left.transferFile = none
  disk : left.disk = ftp.closedDisk
  sent : left.sent = ftp.sent

/-- What a turn makes of a session that waits before the data. -/
inductive BeforeData (phase : TransferPhase) (ftp : FtpSession) : FtpSession → Prop
  | waits {left next} (hnext : left.transferFile = some next) (hopening : 0 < next.toData)
      (hless : next.toData < phase.toData) (hcargo : left.cargo = ftp.cargo) : BeforeData phase ftp left
  | enters {left} (hcargo : left.cargo = ftp.cargo) : BeforeData phase ftp (after transferData left)
  | fails (reply : FtpReply) : BeforeData phase ftp (after (lastReply false reply) ftp)
  | gone {left} (h : Gone ftp left) : BeforeData phase ftp left

/-- What a turn makes of a session that has nothing but replies left. -/
inductive BehindData (ftp : FtpSession) : FtpSession → Prop
  | replies {left} (hcargo : left.cargo = ftp.cargo) (reply : FtpReply) :
      BehindData ftp (after (lastReply true reply) left)
  | gone {left} (h : Gone ftp left) : BehindData ftp left

variable {ftp left : FtpSession} {phase : TransferPhase} {env : Env} {answer : Answer}

theorem cargo_of_work (h : left.work = ftp.work) : left.cargo = ftp.cargo := by
  have hfile : left.currentFile = ftp.currentFile := congrArg Work.currentFile h
  have hdisk : left.disk = ftp.disk := congrArg Work.disk h
  have hsent : left.sent = ftp.sent := congrArg Work.sent h
  have htransfer : left.state.transfer = ftp.state.transfer := congrArg Work.transfer h
  rw [cargo, cargo, hfile, hdisk, hsent, htransfer]

theorem cargo_replyWritten (env : Env) (written : Bool) (ftp : FtpSession) :
    (after (replyWritten env written) ftp).cargo = ftp.cargo :=
  cargo_of_work (work_replyWritten env written ftp)

theorem sent_of_cargo (h : left.cargo = ftp.cargo) : left.sent = ftp.sent := congrArg Cargo.sent h

theorem transfer_of_cargo (h : left.cargo = ftp.cargo) :
    left.state.transfer = ftp.state.transfer := congrArg Cargo.transfer h

theorem closedDisk_of_cargo (h : left.cargo = ftp.cargo) : left.closedDisk = ftp.closedDisk := by
  have hfile : left.currentFile = ftp.currentFile := congrArg Cargo.currentFile h
  have hdisk : left.disk = ftp.disk := congrArg Cargo.disk h
  rw [closedDisk, closedDisk, hfile, hdisk]

theorem gone_ended (h : left.cargo = ftp.cargo) (resetAbort : Bool) :
    Gone ftp (left.ended resetAbort) :=
  ⟨rfl, closedDisk_of_cargo h, congrArg Cargo.sent h⟩

theorem beforeData_announced {written : FtpSession} (h : written.cargo = ftp.cargo)
    (hphase : 2 < phase.toData) : BeforeData phase ftp (after (announced env) written) := by
  rw [after_announced]
  split
  · exact .gone ⟨rfl, closedDisk_of_cargo h, congrArg Cargo.sent h⟩
  · split
    · exact .waits rfl Nat.two_pos hphase h
    · exact .waits rfl Nat.two_pos hphase h

theorem beforeData_connected (hphase : 1 < phase.toData) :
    BeforeData phase ftp (after connected ftp) := by
  rw [after_connected]
  split
  · exact .waits rfl Nat.one_pos hphase rfl
  · exact .enters rfl

/-- **Before the data** a turn leads on, to the data, or to the end. -/
theorem beforeData_resume (hphase : ftp.transferFile = some phase) (hopening : 0 < phase.toData)
    (env : Env) (answer : Answer) : BeforeData phase ftp (after (resume env answer) ftp) := by
  cases phase with
  | spawned =>
      rw [resume_spawned hphase]
      split
      · exact .waits rfl (by decide) (by decide) rfl
      · exact beforeData_announced rfl (by decide)
  | announcing =>
      rw [resume_announcing hphase]
      exact beforeData_announced (cargo_replyWritten env _ ftp) (by decide)
  | connecting =>
      rw [resume_connecting hphase]
      split
      · exact beforeData_connected (by decide)
      · exact .fails _
  | accepting =>
      rw [resume_accepting hphase]
      split
      · exact beforeData_connected (by decide)
      · exact .fails _
  | handshaking =>
      rw [resume_handshaking hphase]
      split
      · exact .enters rfl
      · exact .fails _
  | sending | receiving | warning | shuttingDown | notifying | ending => cases hopening

theorem behindData_notifying (hphase : ftp.transferFile = some .notifying) (env : Env)
    (answer : Answer) : BehindData ftp (after (resume env answer) ftp) := by
  have hcargo := cargo_replyWritten env answer.isDone ftp
  rw [resume_notifying hphase, after_notified]
  split
  · refine .replies ?_ _
    exact hcargo
  · exact .gone (gone_ended hcargo true)

theorem gone_ending {resetAbort : Bool} (hphase : ftp.transferFile = some (.ending resetAbort))
    (env : Env) (answer : Answer) : Gone ftp (after (resume env answer) ftp) := by
  rw [resume_ending hphase]
  exact gone_ended (cargo_replyWritten env _ ftp) resetAbort

/-- What is known of a transfer where its coroutine waits: so many turns at most before the data, while
it moves the data, so many turns before the end when only replies are left, and behind the end. -/
structure Course where
  transfer : Transfer
  before : Nat → FtpSession → Prop
  moving : TransferPhase → FtpSession → Prop
  behind : Nat → FtpSession → Prop
  ended : FtpSession → Prop

namespace Course

variable {course next : Course}

def AtPhase (course : Course) (ftp : FtpSession) : Option TransferPhase → Prop
  | none => course.ended ftp
  | some (.sending buffer) => course.moving (.sending buffer) ftp
  | some (.receiving buffer) => course.moving (.receiving buffer) ftp
  | some (.warning count) => course.moving (.warning count) ftp
  | some (.shuttingDown transfer) => course.moving (.shuttingDown transfer) ftp
  | some .notifying => course.behind 2 ftp
  | some (.ending _) => course.behind 1 ftp
  | some phase => course.before phase.toData ftp

/-- A session on that course. -/
structure At (course : Course) (ftp : FtpSession) : Prop where
  transfer : ftp.transferFile.isSome = true → ftp.state.transfer = course.transfer
  phase : course.AtPhase ftp ftp.transferFile

/-- Nothing but the cargo matters, and the end of the coroutine only closes the file. -/
structure Sound (course : Course) : Prop where
  before : ∀ {count ftp left}, course.before count ftp → left.cargo = ftp.cargo →
    course.before count left
  moving : ∀ {phase ftp left}, course.moving phase ftp → left.cargo = ftp.cargo →
    course.moving phase left
  behind : ∀ {count ftp left}, course.behind count ftp → left.cargo = ftp.cargo →
    course.behind count left
  ended : ∀ {ftp left}, course.ended ftp → left.cargo = ftp.cargo → course.ended left
  gone : ∀ {count ftp left}, course.behind count ftp → Gone ftp left → course.ended left

/-- A turn in which no data is moved leads from the one course to the next. -/
structure Leads (course next : Course) : Prop where
  transfer : next.transfer = course.transfer
  waits : ∀ {count fewer ftp}, course.before count ftp → fewer < count → next.before fewer ftp
  enters : ∀ {count ftp}, course.before count ftp → ftp.state.transfer = course.transfer →
    next.At (after transferData ftp)
  fails : ∀ {count ftp}, course.before count ftp → next.behind 1 ftp
  replies : ∀ {ftp}, course.behind 2 ftp → next.behind 1 ftp
  ended : ∀ {ftp}, course.ended ftp → next.ended ftp

theorem atPhase_opening {phase : TransferPhase} (hopening : 0 < phase.toData) :
    course.AtPhase ftp (some phase) = course.before phase.toData ftp := by
  cases phase with
  | sending | receiving | warning | shuttingDown | notifying | ending => cases hopening
  | _ => rfl

/-- What is known of the one session where it waits is known of the other, too. -/
structure Follows (course : Course) (ftp : FtpSession) (next : Course) (left : FtpSession) :
    Prop where
  transfer : next.transfer = course.transfer
  before : ∀ {count}, course.before count ftp → next.before count left
  moving : ∀ {phase}, course.moving phase ftp → next.moving phase left
  behind : ∀ {count}, course.behind count ftp → next.behind count left
  ended : course.ended ftp → next.ended left

theorem At.follow (h : course.At ftp) (hfollows : Follows course ftp next left)
    (hphase : left.transferFile = ftp.transferFile)
    (htransfer : left.state.transfer = ftp.state.transfer) : next.At left := by
  refine ⟨by rw [hphase, htransfer, hfollows.transfer]; exact h.transfer, ?_⟩
  have hat := h.phase
  rw [hphase]
  unfold AtPhase at *
  split at hat
  · exact hfollows.ended hat
  · exact hfollows.moving hat
  · exact hfollows.moving hat
  · exact hfollows.moving hat
  · exact hfollows.moving hat
  · exact hfollows.behind hat
  · exact hfollows.behind hat
  · exact hfollows.before hat

section Sound

variable (hsound : course.Sound)
include hsound

theorem At.of_work (h : course.At ftp) (hwork : left.work = ftp.work) : course.At left := by
  have hcargo := cargo_of_work hwork
  refine h.follow ⟨rfl, ?_, ?_, ?_, ?_⟩ (congrArg Work.transferFile hwork) (transfer_of_cargo hcargo)
  · exact fun hat => hsound.before hat hcargo
  · exact fun hat => hsound.moving hat hcargo
  · exact fun hat => hsound.behind hat hcargo
  · exact fun hat => hsound.ended hat hcargo

theorem at_of_gone {count : Nat} (h : course.behind count ftp) (hgone : Gone ftp left) :
    course.At left := by
  refine ⟨by simp [hgone.transferFile], ?_⟩
  rw [hgone.transferFile]
  exact hsound.gone h hgone

theorem at_ended {count : Nat} (h : course.behind count ftp) (resetAbort : Bool) :
    course.At (ftp.ended resetAbort) := at_of_gone hsound h (gone_ended rfl resetAbort)

theorem at_lastReply (htransfer : ftp.state.transfer = course.transfer) (h : course.behind 1 ftp)
    (resetAbort : Bool) (reply : FtpReply) :
    course.At (after (lastReply resetAbort reply) ftp) := by
  rw [after_lastReply]
  split
  · exact ⟨fun _ => htransfer, hsound.behind h rfl⟩
  · exact at_ended hsound h resetAbort

theorem at_notifyFailed (htransfer : ftp.state.transfer = course.transfer)
    (h : course.behind 2 ftp) : course.At (after notifyFailed ftp) := by
  rw [after_notifyFailed]
  split
  · exact ⟨fun _ => htransfer, hsound.behind h rfl⟩
  · exact at_ended hsound h true

end Sound

section Turns

variable (hsound : course.Sound) (hnext : next.Sound) (hleads : Leads course next)
include hsound hnext hleads

theorem At.opening (h : course.At ftp) (hphase : ftp.transferFile = some phase)
    (hopening : 0 < phase.toData) (hopens : BeforeData phase ftp left) : next.At left := by
  have htransfer := h.transfer (by rw [hphase]; rfl)
  have hat := h.phase
  rw [hphase, atPhase_opening hopening] at hat
  cases hopens with
  | waits hwaits hopening' hless hcargo =>
      refine ⟨fun _ => ?_, ?_⟩
      · rw [transfer_of_cargo hcargo, htransfer, hleads.transfer]
      · rw [hwaits, atPhase_opening hopening']
        exact hnext.before (hleads.waits hat hless) hcargo
  | enters hcargo =>
      exact hleads.enters (hsound.before hat hcargo) ((transfer_of_cargo hcargo).trans htransfer)
  | fails reply =>
      exact at_lastReply hnext (htransfer.trans hleads.transfer.symm) (hleads.fails hat) false reply
  | gone hgone => exact at_of_gone hnext (hleads.fails hat) hgone

/-- **A turn of the coroutine** leads on, if it does while the data is moved. -/
theorem At.turn (h : course.At ftp) (env : Env) (answer : Answer)
    (hmoves : ∀ phase, ftp.transferFile = some phase → ftp.state.transfer = course.transfer →
      course.moving phase ftp → next.At (after (resume env answer) ftp)) :
    next.At (after (resume env answer) ftp) := by
  have hat := h.phase
  cases hphase : ftp.transferFile with
  | none =>
      rw [hphase] at hat
      rw [resume_of_none hphase]
      refine ⟨by simp [hphase], ?_⟩
      rw [hphase]
      exact hleads.ended hat
  | some phase =>
      have htransfer := h.transfer (by rw [hphase]; rfl)
      rw [hphase] at hat
      cases phase with
      | spawned | announcing | connecting | accepting | handshaking =>
          exact At.opening hsound hnext hleads h hphase (by decide)
            (beforeData_resume hphase (by decide) env answer)
      | sending | receiving | warning | shuttingDown => exact hmoves _ hphase htransfer hat
      | notifying =>
          have hcloses := behindData_notifying hphase env answer
          generalize after (resume env answer) ftp = left at hcloses
          have hbehind : next.behind 1 ftp := hleads.replies hat
          cases hcloses with
          | replies hcargo reply =>
              refine at_lastReply hnext ?_ (hnext.behind hbehind hcargo) true reply
              rw [transfer_of_cargo hcargo, htransfer, hleads.transfer]
          | gone hgone => exact at_of_gone hnext hbehind hgone
      | ending resetAbort =>
          have hgone := gone_ending hphase env answer
          refine ⟨by simp [hgone.transferFile], ?_⟩
          rw [hgone.transferFile]
          exact hleads.ended (hsound.gone hat hgone)

end Turns

theorem At.isInTransfer (h : course.At ftp) (hmoves : course.transfer ≠ .none)
    (halive : ftp.transferFile.isSome = true) : ftp.state.isInTransfer = true := by
  rw [FtpState.isInTransfer, h.transfer halive]
  exact bne_iff_ne.mpr hmoves

/-- Every turn of the coroutine brings the end of the course nearer. -/
structure Countdown (course : Nat → Course) : Prop where
  sound : ∀ turns, (course turns).Sound
  moves : ∀ turns, (course turns).transfer ≠ .none
  turn : ∀ {turns ftp} (env : Env) (answer : Answer), (course turns).At ftp →
    (course (turns - 1)).At (after (resume env answer) ftp)

section Countdown

variable {course : Nat → Course} {turns : Nat} (hcountdown : Countdown course)
include hcountdown

/-- **Any turn** of the session, while the transfer lives. -/
theorem Countdown.step (h : (course turns).At ftp) (event : Event) :
    (course (turns - if event.isTransfer then 1 else 0)).At (stepTransfer ftp event) := by
  have hin := h.isInTransfer (hcountdown.moves turns)
  rcases stepTransfer_cases hin event with ⟨hother, hwork⟩ | ⟨env, answer, rfl, hstep⟩
  · rw [hother]
    exact h.of_work (hcountdown.sound turns) hwork
  · rw [hstep]
    exact hcountdown.turn env answer h

theorem Countdown.run (h : (course turns).At ftp) (events : List Event) :
    (course (turns - events.countP Event.isTransfer)).At (runTransfer ftp events) := by
  induction events generalizing ftp turns with
  | nil => exact h
  | cons event events ih =>
      rw [List.countP_cons, Nat.add_comm, ← Nat.sub_sub]
      exact ih (hcountdown.step h event)

end Countdown

end Course

end FtpSession

end Wfde
