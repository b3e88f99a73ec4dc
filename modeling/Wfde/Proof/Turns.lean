import Wfde.Proof.TransferFrame

/-!
# Turns of the transfer coroutine

What one turn of `TransferFile` can do, said once: it waits again, at a phase that may follow the one
it has been waiting in, and leaves the plan of the transfer alone, or it comes to its end and resets
the plan.
-/

namespace Wfde

open Effect

namespace FtpSession

/-- The state of the protocol but for what a reply that was written or the answer to an ABOR
changes. -/
def plan (ftp : FtpSession) : FtpState :=
  { ftp.state with abortPending := false, ccIsEncrypted := false, tasksPendingAfterReply := [] }

/-- The reply 150 has not been written. -/
def IsStarting (phase : TransferPhase) : Prop := phase = .spawned ∨ phase = .announcing

/-- The data connection is being made. -/
def IsConnecting (phase : TransferPhase) : Prop := phase = .connecting ∨ phase = .accepting

/-- `SendFile` or `ReceiveFile` has been entered. -/
def HasEntered : TransferPhase → Prop
  | .sending _ | .receiving _ | .warning _ | .shuttingDown _ | .notifying => True
  | _ => False

/-- Which phase may follow a phase when the coroutine goes on. -/
inductive Advance (ftp : FtpSession) (answer : Answer) : TransferPhase → TransferPhase → Prop
  | announces : Advance ftp answer .spawned .announcing
  | connects {phase} (hphase : IsStarting phase) (hport : ftp.state.initiation = .port) :
      Advance ftp answer phase .connecting
  | accepts {phase} (hphase : IsStarting phase) (hport : ftp.state.initiation ≠ .port)
      (hclosed : ftp.closed = false) : Advance ftp answer phase .accepting
  | upgrades {phase} (hphase : IsConnecting phase) (hencrypt : ftp.state.encryptTransfers = true) :
      Advance ftp answer phase .handshaking
  | enters {phase next} (hphase : IsConnecting phase)
      (hplain : ftp.state.encryptTransfers = false) (hnext : HasEntered next) :
      Advance ftp answer phase next
  | upgraded {next} (hdone : answer.isDone = true) (hnext : HasEntered next) :
      Advance ftp answer .handshaking next
  | moves {phase next} (hphase : HasEntered phase) (hnext : HasEntered next) :
      Advance ftp answer phase next
  | finishes {phase} (hphase : ¬ IsStarting phase) (resetAbort : Bool) :
      Advance ftp answer phase (.ending resetAbort)

/-- The coroutine has come to its end. -/
structure Ends (before after : FtpSession) : Prop where
  transferFile : after.transferFile = none
  currentFile : after.currentFile = none
  plan : after.plan = before.plan.resetTransfer

/-- What a turn leaves. -/
inductive Turn (ftp : FtpSession) (answer : Answer) (phase : TransferPhase) : FtpSession → Prop
  | waits {left next} (hnext : left.transferFile = some next)
      (hadvance : Advance ftp answer phase next) (hplan : left.plan = ftp.plan)
      (hsck : next = .announcing ∨ IsConnecting next → left.transferSck = ftp.transferSck) :
      Turn ftp answer phase left
  | ends {left} (hends : Ends ftp left)
      (hsck : left.transferSck = none ∨ IsStarting phase ∧ left.transferSck = ftp.transferSck) :
      Turn ftp answer phase left

/-- What the part of a turn leaves that runs behind the entry. -/
inductive Lands (ftp : FtpSession) : FtpSession → Prop
  | waits {left next} (hnext : left.transferFile = some next) (hentered : HasEntered next)
      (hplan : left.plan = ftp.plan) : Lands ftp left
  | finishes {left resetAbort} (hnext : left.transferFile = some (.ending resetAbort))
      (hplan : left.plan = ftp.plan) : Lands ftp left
  | ends {left} (hends : Ends ftp left) (hsck : left.transferSck = none) : Lands ftp left

section Lands

variable {ftp other left : FtpSession} {env : Env} {answer : Answer} {phase : TransferPhase}

theorem plan_of_files (h : Files ftp left) : left.plan = ftp.plan := by
  rw [h]
  rfl

theorem plan_replyWritten (env : Env) (written : Bool) (ftp : FtpSession) :
    (after (replyWritten env written) ftp).plan = ftp.plan := by
  rw [after_replyWritten]
  cases written with
  | true => rfl
  | false => rfl

theorem hasEntered_of_isData (h : IsData phase) : HasEntered phase := by
  cases phase with
  | sending | receiving | shuttingDown => trivial
  | _ => exact h.elim

theorem lands_ended {resetAbort : Bool} (hplan : left.plan = ftp.plan) :
    Lands ftp (left.ended resetAbort) := by
  have hreset : left.plan.resetTransfer = ftp.plan.resetTransfer := by rw [hplan]
  exact .ends ⟨rfl, rfl, hreset⟩ rfl

theorem lands_rule (ftp : FtpSession) : BodyRule (fun left => left.plan = ftp.plan) (Lands ftp) where
  files hplan hfiles := (plan_of_files hfiles).trans hplan
  waits hplan hphase := .waits rfl (hasEntered_of_isData hphase) hplan
  replies hplan _ _ := .finishes rfl hplan
  notifies hplan _ := .waits rfl trivial hplan
  ends hplan _ := lands_ended hplan

theorem Lands.turn (h : Lands ftp left) (hnot : ¬ IsStarting phase)
    (hadvance : ∀ next, HasEntered next → Advance ftp answer phase next) :
    Turn ftp answer phase left := by
  cases h with
  | @waits next hnext hentered hplan =>
      refine .waits hnext (hadvance next hentered) hplan ?_
      rintro (rfl | rfl | rfl)
      · exact hentered.elim
      · exact hentered.elim
      · exact hentered.elim
  | finishes hnext hplan =>
      refine .waits hnext (.finishes hnot _) hplan ?_
      rintro (hcase | hcase | hcase) <;> cases hcase
  | ends hends hsck => exact .ends hends (.inl hsck)

end Lands

section Turn

variable {ftp : FtpSession} {env : Env} {answer : Answer} {phase : TransferPhase}

theorem IsConnecting.not_isStarting (h : IsConnecting phase) : ¬ IsStarting phase := by
  rintro (rfl | rfl) <;> rcases h with h | h <;> cases h

theorem HasEntered.not_isStarting (h : HasEntered phase) : ¬ IsStarting phase := by
  rintro (rfl | rfl)
  · exact h
  · exact h

theorem turn_announced {written : FtpSession} (hplan : written.plan = ftp.plan)
    (hsck : written.transferSck = ftp.transferSck) (hclosed : written.closed = ftp.closed)
    (hphase : IsStarting phase) : Turn ftp answer phase (after (announced env) written) := by
  have hinitiation : written.state.initiation = ftp.state.initiation := by
    change written.plan.initiation = ftp.plan.initiation
    rw [hplan]
  have hreset : written.plan.resetTransfer = ftp.plan.resetTransfer := by rw [hplan]
  rw [after_announced]
  split
  · exact .ends ⟨rfl, rfl, hreset⟩ (.inr ⟨hphase, hsck⟩)
  · rename_i hgone
    have hopen : ftp.closed = false := by
      rw [← hclosed]
      simp only [Bool.or_eq_true, not_or, Bool.not_eq_true] at hgone
      exact hgone.1.2
    rw [hinitiation]
    split
    · rename_i hport
      exact .waits rfl (.connects hphase hport) hplan fun _ => hsck
    · rename_i hport
      exact .waits rfl (.accepts hphase hport hopen) hplan fun _ => hsck

theorem turn_connected (hphase : IsConnecting phase) :
    Turn ftp answer phase (after connected ftp) := by
  rw [after_connected]
  by_cases hencrypt : ftp.state.encryptTransfers = true
  · rw [if_pos hencrypt]
    refine .waits rfl (.upgrades hphase hencrypt) rfl ?_
    rintro (hcase | hcase | hcase) <;> cases hcase
  · rw [if_neg hencrypt]
    have hlands : Lands ftp (after transferData
        { ftp with abortTransfer := some .transferSocket, transferSck := some true }) :=
      (lands_rule ftp).transferData rfl
    exact hlands.turn hphase.not_isStarting fun next hnext =>
      .enters hphase (by simpa using hencrypt) hnext

theorem turn_cantOpenDataConn (hphase : ¬ IsStarting phase) :
    Turn ftp answer phase (after cantOpenDataConn ftp) := by
  rw [cantOpenDataConn, after_lastReply]
  split
  · refine .waits rfl (.finishes hphase false) rfl ?_
    rintro (hcase | hcase | hcase) <;> cases hcase
  · exact .ends ⟨rfl, rfl, rfl⟩ (.inl rfl)

/-- **A turn of the transfer coroutine.** -/
theorem turn_resume (env : Env) (hphase : ftp.transferFile = some phase) :
    Turn ftp answer phase (after (resume env answer) ftp) := by
  let written := after (replyWritten env answer.isDone) ftp
  have hplan : written.plan = ftp.plan := plan_replyWritten env _ ftp
  have hsame : written.transferSck = ftp.transferSck ∧ written.closed = ftp.closed := by
    change (after (replyWritten env answer.isDone) ftp).transferSck = _
      ∧ (after (replyWritten env answer.isDone) ftp).closed = _
    rw [after_replyWritten]
    split <;> exact ⟨rfl, rfl⟩
  have hentered {left : FtpSession} (h : HasEntered phase) (hlands : Lands ftp left) :
      Turn ftp answer phase left := hlands.turn h.not_isStarting fun _ => .moves h
  cases phase with
  | spawned =>
      rw [resume_spawned hphase]
      split
      · exact .waits rfl .announces rfl fun _ => rfl
      · exact turn_announced rfl rfl rfl (.inl rfl)
  | announcing =>
      rw [resume_announcing hphase]
      exact turn_announced hplan hsame.1 hsame.2 (.inr rfl)
  | connecting =>
      rw [resume_connecting hphase]
      split
      · exact turn_connected (.inl rfl)
      · exact turn_cantOpenDataConn (IsConnecting.not_isStarting (.inl rfl))
  | accepting =>
      rw [resume_accepting hphase]
      split
      · exact turn_connected (.inr rfl)
      · exact turn_cantOpenDataConn (IsConnecting.not_isStarting (.inr rfl))
  | handshaking =>
      have hnot : ¬ IsStarting .handshaking := by rintro (hcase | hcase) <;> cases hcase
      rw [resume_handshaking hphase]
      split
      · rename_i hdone
        exact ((lands_rule ftp).transferData rfl).turn hnot fun _ => .upgraded hdone
      · exact turn_cantOpenDataConn hnot
  | sending buffer =>
      exact hentered trivial ((lands_rule ftp).sending hphase rfl rfl fun _ _ => lands_ended rfl)
  | receiving buffer =>
      refine hentered trivial ((lands_rule ftp).receiving hphase rfl ?_ ?_)
      · intro read left _ _ _ hleft
        exact lands_ended hleft
      · intro read left _ _ _ _ hleft
        exact .waits rfl trivial hleft
  | warning count => exact hentered trivial ((lands_rule ftp).warning hphase hplan)
  | shuttingDown transfer => exact hentered trivial ((lands_rule ftp).shuttingDown hphase rfl rfl)
  | notifying =>
      refine hentered trivial ?_
      rw [resume_notifying hphase, after_notified]
      split
      · exact (lands_rule ftp).lastReply hplan rfl
      · exact lands_ended hplan
  | ending resetAbort =>
      rw [resume_ending hphase]
      have hreset : written.plan.resetTransfer = ftp.plan.resetTransfer := by rw [hplan]
      exact .ends ⟨rfl, rfl, hreset⟩ (.inl rfl)

end Turn

section Sent

variable {ftp left : FtpSession} {env : Env} {answer : Answer}

theorem sent_of_files (h : Files ftp left) : left.sent = ftp.sent := by
  rw [h]

theorem sent_lastReply (resetAbort : Bool) (reply : FtpReply) (ftp : FtpSession) :
    (after (lastReply resetAbort reply) ftp).sent = ftp.sent := by
  rw [after_lastReply]
  split <;> rfl

theorem sent_replyWritten (env : Env) (written : Bool) (ftp : FtpSession) :
    (after (replyWritten env written) ftp).sent = ftp.sent :=
  congrArg Work.sent (work_replyWritten env written ftp)

theorem sent_rule (sent : Bytes) :
    BodyRule (fun ftp => ftp.sent = sent) (fun ftp => ftp.sent = sent) where
  files hsent hfiles := (sent_of_files hfiles).trans hsent
  waits hsent _ := hsent
  replies hsent _ _ := hsent
  notifies hsent _ := hsent
  ends hsent _ := hsent

theorem sent_announced (env : Env) (ftp : FtpSession) :
    (after (announced env) ftp).sent = ftp.sent := by
  rw [after_announced]
  split
  · rfl
  · split <;> rfl

theorem sent_connected (ftp : FtpSession) : (after connected ftp).sent = ftp.sent := by
  rw [after_connected]
  split
  · rfl
  · exact (sent_rule ftp.sent).transferData rfl

/-- **Bytes sent.** Only the end of a write on the data connection adds to them. -/
theorem sent_resume (h : ∀ buffer, ftp.transferFile ≠ some (.sending buffer)) (env : Env)
    (answer : Answer) : (after (resume env answer) ftp).sent = ftp.sent := by
  have hwritten := sent_replyWritten env answer.isDone ftp
  cases hphase : ftp.transferFile with
  | none => rw [resume_of_none hphase]
  | some phase =>
      cases phase with
      | spawned =>
          rw [resume_spawned hphase]
          split
          · rfl
          · exact sent_announced env ftp
      | announcing => rw [resume_announcing hphase, sent_announced, hwritten]
      | connecting =>
          rw [resume_connecting hphase]
          split
          · exact sent_connected ftp
          · exact sent_lastReply _ _ ftp
      | accepting =>
          rw [resume_accepting hphase]
          split
          · exact sent_connected ftp
          · exact sent_lastReply _ _ ftp
      | handshaking =>
          rw [resume_handshaking hphase]
          split
          · exact (sent_rule ftp.sent).transferData rfl
          · exact sent_lastReply _ _ ftp
      | sending buffer => exact absurd hphase (h buffer)
      | receiving buffer =>
          refine (sent_rule ftp.sent).receiving hphase rfl ?_ ?_
          · intro read left _ _ _ hsent
            exact hsent
          · intro read left _ _ _ _ hsent
            exact hsent
      | warning count => exact (sent_rule ftp.sent).warning hphase hwritten
      | shuttingDown transfer => exact (sent_rule ftp.sent).shuttingDown hphase rfl rfl
      | notifying =>
          rw [resume_notifying hphase, after_notified]
          split
          · exact (sent_rule ftp.sent).lastReply hwritten rfl
          · exact hwritten
      | ending resetAbort =>
          rw [resume_ending hphase]
          exact hwritten

end Sent

end FtpSession

end Wfde
