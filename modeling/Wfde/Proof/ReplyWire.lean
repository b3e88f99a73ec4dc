import Wfde.Ftp.ControlWire
import Wfde.Proof.AtRest

/-!
# Replies on the wire

What one turn of either coroutine can do to the replies, said once: it begins one or it begins none.
A run in which no reply is begun before the other coroutine has sent its own puts the replies on the
wire one after the other. `Reply` does not wait for that, and then the two are mixed.
-/

namespace Wfde

open Effect FtpSession

namespace FtpSession

section Speaks

variable {ftp other left : FtpSession} {who : Coroutine}

structure Quiet (before after : FtpSession) : Prop where
  replies : after.replies = before.replies
  replyFailed : after.replyFailed = before.replyFailed

instance : Std.Refl Quiet := ⟨fun _ => ⟨rfl, rfl⟩⟩

instance : IsTrans FtpSession Quiet where
  trans _ _ _ hab hbc :=
    ⟨hbc.replies.trans hab.replies, hbc.replyFailed.trans hab.replyFailed⟩

/-- What a turn of a coroutine leaves of the replies. -/
inductive Speaks (who : Coroutine) (ftp left : FtpSession) : Prop
  | silent (hquiet : Quiet ftp left)
  | replies {reply} (hreplies : left.replies = ftp.replies ++ [reply])
      (hbefore : ftp.replyFailed = false) (hafter : left.replyFailed = false)
      (hwaits : left.isReplying who = true)

theorem Speaks.of_quiet (h : Speaks who other left) (hquiet : Quiet ftp other) :
    Speaks who ftp left := by
  cases h with
  | silent hrest => exact .silent (IsTrans.trans _ _ _ hquiet hrest)
  | replies hreplies hbefore hafter hwaits =>
      have hall := hreplies.trans (congrArg (· ++ _) hquiet.replies)
      exact .replies hall (hquiet.replyFailed.symm.trans hbefore) hafter hwaits

theorem replyFailed_of_canReply (h : ftp.canReply = true) : ftp.replyFailed = false := by
  simp only [canReply, Bool.and_eq_true, Bool.not_eq_true'] at h
  exact h.1

theorem quiet_of_files (h : Files ftp left) : Quiet ftp left := by
  rw [h]
  exact ⟨rfl, rfl⟩

end Speaks

section Transfer

variable {ftp left : FtpSession} {env : Env} {answer : Answer} {phase : TransferPhase}

theorem speaks_replying (reply : FtpReply) (hcan : ftp.canReply = true)
    (hphase : phase.isReply = true) : Speaks .transfer ftp (ftp.replying reply phase) :=
  .replies rfl (replyFailed_of_canReply hcan) (replyFailed_of_canReply hcan) hphase

theorem quiet_ended (resetAbort : Bool) : Quiet ftp (ftp.ended resetAbort) := ⟨rfl, rfl⟩

theorem speaks_lastReply (resetAbort : Bool) (reply : FtpReply) (ftp : FtpSession) :
    Speaks .transfer ftp (after (lastReply resetAbort reply) ftp) := by
  rw [after_lastReply]
  split
  · exact speaks_replying reply ‹_› rfl
  · exact .silent (quiet_ended resetAbort)

theorem speaks_rule (ftp : FtpSession) : BodyRule (Quiet ftp) (Speaks .transfer ftp) where
  files hquiet hfiles := IsTrans.trans _ _ _ hquiet (quiet_of_files hfiles)
  waits hquiet _ := .silent ⟨hquiet.replies, hquiet.replyFailed⟩
  replies hquiet hcan _ := (speaks_replying _ hcan rfl).of_quiet hquiet
  notifies hquiet hcan := (speaks_replying _ hcan rfl).of_quiet hquiet
  ends hquiet _ := .silent (IsTrans.trans _ _ _ hquiet (quiet_ended true))

theorem quiet_announced (env : Env) (ftp : FtpSession) : Quiet ftp (after (announced env) ftp) := by
  rw [after_announced]
  split
  · exact ⟨rfl, rfl⟩
  · split
    · exact ⟨rfl, rfl⟩
    · exact ⟨rfl, rfl⟩

theorem speaks_connected (ftp : FtpSession) : Speaks .transfer ftp (after connected ftp) := by
  rw [after_connected]
  split
  · exact .silent ⟨rfl, rfl⟩
  · exact (speaks_rule ftp).transferData ⟨rfl, rfl⟩

theorem speaks_notified (ftp : FtpSession) : Speaks .transfer ftp (after notified ftp) := by
  rw [after_notified]
  split
  · exact (speaks_rule ftp).lastReply ⟨rfl, rfl⟩ rfl
  · exact .silent (quiet_ended true)

/-- **A turn of the transfer coroutine** that is not in `Reply`. -/
theorem speaks_resume (hrest : ftp.isReplying .transfer = false) :
    Speaks .transfer ftp (after (resume env answer) ftp) := by
  cases hphase : ftp.transferFile with
  | none =>
      rw [resume_of_none hphase]
      exact .silent ⟨rfl, rfl⟩
  | some phase =>
      have hnot : phase.isReply = false := by
        rw [isReplying, hphase] at hrest
        exact hrest
      cases phase with
      | announcing | warning _ | notifying | ending _ => cases hnot
      | spawned =>
          rw [resume_spawned hphase]
          split
          · exact speaks_replying _ ‹_› rfl
          · exact .silent (quiet_announced env ftp)
      | connecting =>
          rw [resume_connecting hphase]
          split
          · exact speaks_connected ftp
          · exact speaks_lastReply false _ ftp
      | accepting =>
          rw [resume_accepting hphase]
          split
          · exact speaks_connected ftp
          · exact speaks_lastReply false _ ftp
      | handshaking =>
          rw [resume_handshaking hphase]
          split
          · exact (speaks_rule ftp).transferData ⟨rfl, rfl⟩
          · exact speaks_lastReply false _ ftp
      | sending buffer =>
          exact (speaks_rule ftp).sending hphase ⟨rfl, rfl⟩ ⟨rfl, rfl⟩ fun _ _ => .silent ⟨rfl, rfl⟩
      | receiving buffer =>
          refine (speaks_rule ftp).receiving hphase ⟨rfl, rfl⟩ ?_ ?_
          · intro read left _ _ _ hquiet
            exact .silent (IsTrans.trans _ _ _ hquiet (quiet_ended true))
          · intro read left _ _ hcan hfiles hquiet
            have hleft : left.canReply = true := by
              rw [hfiles]
              exact hcan
            exact (speaks_replying _ hleft rfl).of_quiet hquiet
      | shuttingDown transfer =>
          exact (speaks_rule ftp).shuttingDown hphase ⟨rfl, rfl⟩ ⟨rfl, rfl⟩

/-- **A turn of the transfer coroutine** behind the end of a reply's write. -/
theorem speaks_resume_written (hwaits : ftp.isReplying .transfer = true) :
    Speaks .transfer (after (replyWritten env answer.isDone) ftp)
      (after (resume env answer) ftp) := by
  obtain ⟨phase, hphase, hreply⟩ : ∃ phase, ftp.transferFile = some phase
      ∧ phase.isReply = true := by simpa [isReplying, Option.any_eq_true] using hwaits
  cases phase with
  | announcing =>
      rw [resume_announcing hphase]
      exact .silent (quiet_announced env _)
  | warning count =>
      exact (speaks_rule _).warning hphase ⟨rfl, rfl⟩
  | notifying =>
      rw [resume_notifying hphase]
      exact speaks_notified _
  | ending resetAbort =>
      rw [resume_ending hphase]
      exact .silent (quiet_ended resetAbort)
  | _ => cases hreply

end Transfer

section Control

variable {ftp left : FtpSession} {env : Env} {reply : FtpReply} {next : AfterReply} {event : Event}

theorem quiet_silent : SilentFrame Quiet where
  control _ _ := ⟨rfl, rfl⟩
  closePending _ := ⟨rfl, rfl⟩
  socketOpen _ := ⟨rfl, rfl⟩
  closed _ := ⟨rfl, rfl⟩
  acceptor _ := ⟨rfl, rfl⟩
  transferSck _ := ⟨rfl, rfl⟩

theorem speaks_controlReply (env : Env) (reply : FtpReply) (next : AfterReply) (ftp : FtpSession) :
    Speaks .control ftp (after (controlReply env reply next) ftp) := by
  unfold controlReply
  rw [after_bind_of_ok (EStateM.run_get ftp)]
  by_cases hcan : ftp.canReply = true
  · rw [if_pos hcan]
    exact .replies rfl (replyFailed_of_canReply hcan) (replyFailed_of_canReply hcan) rfl
  · rw [if_neg hcan]
    exact .silent (quiet_silent.afterReply env next ftp)

theorem quiet_handled_none (env : Env) (cmd : FtpCmd) (ftp : FtpSession) :
    Quiet ftp (after (handled env cmd none) ftp) := by
  let named : FtpSession := { ftp with prevCmdName := some cmd }
  have hnamed : Quiet ftp named := ⟨rfl, rfl⟩
  unfold handled
  rw [after_bind_of_returns (returns_modify _)]
  change Quiet ftp (after _ named)
  rw [after_bind_of_ok (show getState.run named = .ok named.state named from rfl)]
  have hnext := quiet_silent.nextCommand env
  refine IsTrans.trans _ _ _ hnamed
    (keeps_ite (keeps_bind quiet_silent.callAbort fun _ => ?_) hnext named)
  exact keeps_bind (keeps_modify fun _ => ⟨rfl, rfl⟩) fun _ => hnext

theorem speaks_handled (env : Env) (cmd : FtpCmd) (reply : Option FtpReply) (ftp : FtpSession) :
    Speaks .control ftp (after (handled env cmd reply) ftp) := by
  cases reply with
  | none => exact .silent (quiet_handled_none env cmd ftp)
  | some reply =>
      let named : FtpSession := { ftp with prevCmdName := some cmd }
      have hnamed : Quiet ftp named := ⟨rfl, rfl⟩
      unfold handled
      rw [after_bind_of_returns (returns_modify _)]
      exact (speaks_controlReply env _ _ named).of_quiet hnamed

theorem quiet_frame (cmd : FtpCmd) : Frame Quiet cmd where
  calls _ _ := ⟨rfl, rfl⟩
  state _ _ _ := ⟨rfl, rfl⟩
  disk _ _ _ := ⟨rfl, rfl⟩
  login _ _ _ := ⟨rfl, rfl⟩
  cwd _ _ _ := ⟨rfl, rfl⟩
  start _ file ftp := by
    rw [after_startTransfer]
    exact ⟨rfl, rfl⟩

theorem speaks_handle (env : Env) (cmd : FtpCmd) (param : Bytes) (ftp : FtpSession) :
    Speaks .control ftp (after (handle env cmd param) ftp) := by
  let entry : Handled := ⟨env, cmd, param, ftp⟩
  have hstart : Quiet ftp entry.start := ⟨rfl, rfl⟩
  have hquiet : Quiet ftp entry.after :=
    IsTrans.trans _ _ _ hstart ((quiet_frame cmd).onCmd env param entry.start)
  rw [after_handle]
  cases hresult : entry.result with
  | ok reply left =>
      rw [Handled.after, after_of_ok hresult] at hquiet
      exact (speaks_handled env cmd reply left).of_quiet hquiet
  | error e left =>
      rw [Handled.after, after_of_error hresult] at hquiet
      exact (speaks_controlReply env _ _ left).of_quiet hquiet

/-- **A turn of the command loop** that is not in `Reply`. -/
theorem speaks_control (hcontrol : event.coroutine = .control)
    (hrest : ftp.isReplying .control = false) : Speaks .control ftp (ftp.step event) := by
  cases step_cases ftp event with
  | idle hstep =>
      rw [hstep]
      exact .silent ⟨rfl, rfl⟩
  | leaves env hstep =>
      rw [hstep]
      exact .silent (quiet_silent.leaveLoop env ftp)
  | replies env reply next _ hstep =>
      rw [hstep]
      exact speaks_controlReply env reply next ftp
  | ignores env _ hstep =>
      rw [hstep]
      exact .silent (quiet_silent.nextCommand env ftp)
  | handles entry _ _ _ hstep =>
      rw [hstep]
      exact speaks_handle entry.env entry.cmd entry.param ftp
  | written env ok next hphase =>
      rw [isReplying, hphase] at hrest
      cases hrest
  | resumes env answer hevent =>
      rw [hevent] at hcontrol
      cases hcontrol

/-- **A turn of the command loop** behind the end of a reply's write. -/
theorem speaks_written (ok : Bool) (hwaits : ftp.isReplying .control = true) :
    Speaks .control (after (replyWritten env ok) ftp) (ftp.step (.written env ok)) := by
  cases hphase : ftp.control with
  | replying next =>
      rw [step_written hphase, after_bind_of_returns (returns_replyWritten env ok)]
      exact .silent (quiet_silent.afterReply env next _)
  | _ =>
      rw [isReplying, hphase] at hwaits
      cases hwaits

end Control

section Step

variable {ftp : FtpSession} {event : Event} {who : Coroutine}

theorem speaks_step (hrest : ftp.isReplying event.coroutine = false) :
    Speaks event.coroutine ftp (ftp.step event) := by
  cases event with
  | transfer env answer => exact speaks_resume hrest
  | _ => exact speaks_control rfl hrest

theorem speaks_step_written (env : Env) (ok : Bool) (hwaits : ftp.isReplying who = true) :
    Speaks who (after (replyWritten env ok) ftp) (ftp.step (who.written env ok)) := by
  cases who with
  | control => exact speaks_written ok hwaits
  | transfer =>
      cases ok with
      | true => exact @speaks_resume_written ftp env .done hwaits
      | false => exact @speaks_resume_written ftp env .failed hwaits

theorem quiet_replyWritten (env : Env) (ftp : FtpSession) :
    Quiet ftp (after (replyWritten env true) ftp) := by
  rw [after_replyWritten]
  exact ⟨rfl, rfl⟩

theorem fails_replyWritten (env : Env) (ftp : FtpSession) :
    (after (replyWritten env false) ftp).replies = ftp.replies
      ∧ (after (replyWritten env false) ftp).replyFailed = true := by
  rw [after_replyWritten]
  exact ⟨rfl, rfl⟩

/-- While one coroutine runs the other one stays where it waits. -/
theorem isReplying_other (htidy : Tidy ftp) (h : ftp.isReplying event.coroutine.other = true) :
    (ftp.step event).isReplying event.coroutine.other = true := by
  have hcontrol (hevent : ∀ env answer, event ≠ .transfer env answer)
      (h : ftp.isReplying .transfer = true) : (ftp.step event).isReplying .transfer = true := by
    -- a handler sets the transfer coroutine going only when the protocol is not in transfer
    have hbusy : ftp.state.isInTransfer = true := by
      have hsome : ftp.transferFile ≠ none := by
        intro hnone
        rw [isReplying, hnone] at h
        cases h
      simpa [FtpState.isInTransfer] using htidy.busy hsome
    have hsame : (ftp.step event).transferFile = ftp.transferFile :=
      congrArg Work.transferFile (work_step hbusy hevent)
    rwa [isReplying, hsame]
  cases event with
  | transfer env answer =>
      have hsame : (ftp.step (.transfer env answer)).control = ftp.control :=
        (keeps_resume_tasks env answer ftp).control
      change (ftp.step _).control.isReply = true
      rwa [hsame]
  | _ => exact hcontrol (fun _ _ hevent => by cases hevent) h

theorem newReply_of_quiet (h : (ftp.step event).replies = ftp.replies) :
    ftp.newReply event = none := by
  rw [newReply, h]
  exact List.getElem?_eq_none le_rfl

theorem newReply_of_append {reply : FtpReply} (h : (ftp.step event).replies = ftp.replies ++ [reply]) :
    ftp.newReply event = some reply := by
  rw [newReply, h]
  exact List.getElem?_concat_length

end Step

end FtpSession

namespace ControlWire

/-- What has been sent are the replies in the order in which they were begun, but for the end of the
last one as long as it is being written or when its write has failed, and the text of a reply that is
being written has not changed. -/
structure Whole (wire : ControlWire) : Prop where
  unchanged : ∀ who write, wire.stream.writes who = some write → write.isSent = false →
    write.memory = write.text
  begun : wire.stream.out <+: (wire.ftp.replies.map FtpReply.text).flatten
  complete : wire.ftp.replyFailed = false → wire.stream.AllSent →
    wire.stream.out = (wire.ftp.replies.map FtpReply.text).flatten

/-- The stream carries the replies, and a coroutine whose reply is being written waits for that. -/
structure Wired (wire : ControlWire) : Prop where
  tidy : Tidy wire.ftp
  replying : ∀ who write, wire.stream.writes who = some write → wire.ftp.isReplying who = true
  carries : wire.stream.Carries (wire.ftp.replies.map FtpReply.text) wire.ftp.replyFailed

theorem Wired.whole {wire : ControlWire} (h : Wired wire) : Whole wire where
  unchanged _ _ hwrite hunsent := h.carries.memory hwrite hunsent
  begun := h.carries.prefix
  complete hfailed hsent := by
    have hcarries := h.carries
    rw [hfailed] at hcarries
    exact hcarries.out_of_allSent hsent

section Step

variable {reused : Bytes → Nat → UInt8 → UInt8} {wire : ControlWire} {event : Event}

theorem eq_other_of_ne {who other : Coroutine} (h : other ≠ who) : other = who.other := by
  cases who <;> cases other <;> first | rfl | exact absurd rfl h

/-- **A coroutine goes on**, from what the end of its write has left. -/
theorem Wired.resume {before : FtpSession} (h : Wired wire)
    (hbefore : before.replies = wire.ftp.replies)
    (hspeaks : Speaks event.coroutine before (wire.ftp.step event))
    (hcarries : (wire.stream.finish event.coroutine).Carries
      (wire.ftp.replies.map FtpReply.text) before.replyFailed)
    (hturn : (wire.ftp.newReply event).isSome = true →
      wire.stream.OthersSent event.coroutine) : Wired (wire.resume reused event) := by
  have hother {who : Coroutine} {write : AsyncWrite UInt8} (hwho : who ≠ event.coroutine)
      (hwrite : (wire.stream.finish event.coroutine).writes who = some write) :
      (wire.ftp.step event).isReplying who = true := by
    rw [SharedStream.writes_finish_of_ne hwho] at hwrite
    have hwaits := h.replying who write hwrite
    rw [eq_other_of_ne hwho] at hwaits ⊢
    exact isReplying_other h.tidy hwaits
  cases hspeaks with
  | silent hquiet =>
      -- the write that has ended is gone, and the other one goes on as it was
      have hreplies := hquiet.replies.trans hbefore
      rw [ControlWire.resume, newReply_of_quiet hreplies]
      refine ⟨h.tidy.step event, fun who write hwrite => ?_, ?_⟩
      · refine hother ?_ hwrite
        rintro rfl
        cases SharedStream.writes_finish_self.symm.trans hwrite
      · change (wire.stream.finish event.coroutine).Carries
          ((wire.ftp.step event).replies.map FtpReply.text) (wire.ftp.step event).replyFailed
        rw [hreplies, hquiet.replyFailed]
        exact hcarries
  | @replies reply hreplies hok hafter hwaits =>
      rw [hbefore] at hreplies
      have hnew : wire.ftp.newReply event = some reply := newReply_of_append hreplies
      have hsent := SharedStream.allSent_finish (hturn (by rw [hnew]; rfl))
      rw [ControlWire.resume, hnew]
      refine ⟨h.tidy.step event, fun who write hwrite => ?_, ?_⟩
      · by_cases hwho : who = event.coroutine
        · rw [hwho]
          exact hwaits
        · dsimp only at hwrite
          rw [SharedStream.writes_start_of_ne _ _ hwho, Option.map_eq_some_iff] at hwrite
          obtain ⟨last, hlast, -⟩ := hwrite
          exact hother hwho hlast
      · change ((wire.stream.finish event.coroutine).start reused event.coroutine reply.text).Carries
          ((wire.ftp.step event).replies.map FtpReply.text) (wire.ftp.step event).replyFailed
        rw [hreplies, hafter, List.map_append]
        rw [hok] at hcarries
        exact hcarries.start hsent reused reply.text

theorem Wired.send (h : Wired wire) (who : Coroutine) (count : Nat) :
    Wired { wire with stream := wire.stream.send who count } := by
  refine ⟨h.tidy, fun other write hwrite => ?_, h.carries.send who count⟩
  cases hown : wire.stream.writes who with
  | none =>
      dsimp only at hwrite
      rw [SharedStream.send_of_none hown] at hwrite
      exact h.replying other write hwrite
  | some last =>
      by_cases hother : other = who
      · rw [hother]
        exact h.replying who last hown
      · dsimp only at hwrite
        rw [SharedStream.send_of_some hown] at hwrite
        refine h.replying other write ?_
        rwa [← Function.update_of_ne hother (some (last.advance count)) wire.stream.writes]

theorem othersSent_of_inTurn
    (h : ((wire.ftp.newReply event).isNone
      || (wire.stream.writes event.coroutine.other).all (·.isSent)) = true)
    (hnew : (wire.ftp.newReply event).isSome = true) :
    wire.stream.OthersSent event.coroutine := by
  intro other write hother hwrite
  rw [eq_other_of_ne hother] at hwrite
  rw [hwrite, Bool.or_eq_true] at h
  refine h.resolve_left fun hnone => ?_
  rw [Option.isNone_iff_eq_none.mp hnone] at hnew
  cases hnew

theorem coroutine_written (who : Coroutine) (env : Env) (ok : Bool) :
    (who.written env ok).coroutine = who := by
  cases who with
  | control => rfl
  | transfer => rfl

/-- What the end of the write has left to the coroutine that goes on. -/
theorem Wired.resumes {wireEvent : WireEvent} (h : Wired wire)
    (hresumes : wire.resumes wireEvent = some event) : ∃ before : FtpSession,
    before.replies = wire.ftp.replies ∧ Speaks event.coroutine before (wire.ftp.step event)
      ∧ (wire.stream.finish event.coroutine).Carries (wire.ftp.replies.map FtpReply.text)
        before.replyFailed := by
  cases wireEvent with
  | resumed next =>
      rw [ControlWire.resumes, Option.ite_none_left_eq_some, Bool.not_eq_true] at hresumes
      obtain ⟨hrest, hsame⟩ := hresumes
      obtain rfl := Option.some.inj hsame
      have hnone : wire.stream.writes next.coroutine = none := by
        rw [Option.eq_none_iff_forall_ne_some]
        intro write hwrite
        rw [h.replying _ write hwrite] at hrest
        cases hrest
      refine ⟨wire.ftp, rfl, speaks_step hrest, ?_⟩
      rw [SharedStream.finish_of_none hnone]
      exact h.carries
  | sent who count => cases hresumes
  | returned who env =>
      rw [ControlWire.resumes, Option.ite_none_right_eq_some, Option.any_eq_true] at hresumes
      obtain ⟨⟨write, hwrite, hsent⟩, hsame⟩ := hresumes
      obtain rfl := Option.some.inj hsame
      have hquiet := quiet_replyWritten env wire.ftp
      rw [coroutine_written]
      refine ⟨_, hquiet.replies, speaks_step_written env true (h.replying who write hwrite), ?_⟩
      rw [hquiet.replyFailed]
      exact h.carries.finish hwrite hsent
  | failed who env =>
      rw [ControlWire.resumes, Option.ite_none_right_eq_some, Option.any_eq_true] at hresumes
      obtain ⟨⟨write, hwrite, hunsent⟩, hsame⟩ := hresumes
      obtain rfl := Option.some.inj hsame
      -- `reply_failed_` is set before anything else runs, so no reply begins behind a cut one
      obtain ⟨hreplies, hfailed⟩ := fails_replyWritten env wire.ftp
      rw [coroutine_written]
      refine ⟨_, hreplies, speaks_step_written env false (h.replying who write hwrite), ?_⟩
      rw [hfailed]
      exact h.carries.fail hwrite (by simpa using hunsent)

theorem Wired.step {wireEvent : WireEvent} (h : Wired wire)
    (hturn : wire.inTurn wireEvent = true) : Wired (wire.step reused wireEvent) := by
  cases hresumes : wire.resumes wireEvent with
  | some event =>
      obtain ⟨before, hbefore, hspeaks, hcarries⟩ := h.resumes hresumes
      rw [inTurn, hresumes] at hturn
      unfold ControlWire.step
      rw [hresumes]
      exact h.resume hbefore hspeaks hcarries (othersSent_of_inTurn hturn)
  | none =>
      unfold ControlWire.step
      rw [hresumes]
      cases wireEvent with
      | sent who count =>
          dsimp only
          split
          · exact h.send who count
          · exact h
      | _ => exact h

theorem wired_fresh (permissions : Permissions) (disk : Disk) (segmentSize : Nat) :
    Wired { ftp := fresh permissions disk segmentSize } where
  tidy := tidy_run permissions disk segmentSize []
  replying _ _ hwrite := by cases hwrite
  carries := .whole (fun _ _ hwrite => by cases hwrite) rfl

end Step

end ControlWire

section Results

open ControlWire

/-- **Replies on the wire.** In a run in which every reply is begun when the other coroutine has
nothing left to send, the bytes sent are the texts of the replies, one behind the other. -/
theorem ControlWire.whole_of_inTurn (reused : Bytes → Nat → UInt8 → UInt8)
    (permissions : Permissions) (disk : Disk) (segmentSize : Nat) {events : List WireEvent}
    (h : Machine.Along (step reused) (fun wire event => wire.inTurn event = true)
      { ftp := fresh permissions disk segmentSize } events) :
    Whole (run reused { ftp := fresh permissions disk segmentSize } events) :=
  Wired.whole (Machine.run_induction_along _ Wired (fun _ _ hturn hwired => hwired.step hturn)
    (wired_fresh permissions disk segmentSize) h)

/-- The wire events of a session whose replies are written at once. -/
def onWire (events : List Event) : List WireEvent := events.flatMap fun event =>
  match event with
  | .written env _ => [.sent .control 100, .returned .control env]
  | event => [.resumed event]

/-- A NOOP during a download, when the reply 150 has been sent but its write has not returned. -/
theorem ControlWire.whole_of_inTurn_noop :
    Whole (run (fun text i byte => text.getD i byte)
      { ftp := fresh oneMount (oneFileDisk [7, 8]) 4096 }
      (onWire (transferOf "RETR a") ++ [.resumed (.transfer joeEnv .done), .sent .transfer 2,
        .sent .transfer 100, .resumed (.request joeEnv (bytes "NOOP")), .sent .control 3,
        .returned .transfer joeEnv, .sent .control 100])) :=
  ControlWire.whole_of_inTurn _ oneMount (oneFileDisk [7, 8]) 4096 (by decide +kernel)

/-- A NOOP when the socket has taken two bytes of the reply 150. -/
def overlapping : List WireEvent :=
  onWire (transferOf "RETR a") ++ [.resumed (.transfer joeEnv .done), .sent .transfer 2,
    .resumed (.request joeEnv (bytes "NOOP")), .sent .control 100]

/-- The reply to the NOOP is sent behind two bytes of the other one, even if the memory of that one
stays as it was; if the memory is reused, what is left of that one changes too. -/
theorem ControlWire.not_whole_overlapping :
    let wire (reused : Bytes → Nat → UInt8 → UInt8) :=
      run reused { ftp := fresh oneMount (oneFileDisk [7, 8]) 4096 } overlapping
    ¬ Whole (wire fun _ _ byte => byte)
      ∧ ((wire fun text i byte => text.getD i byte).stream.writes .transfer).any
          (fun write => !write.isSent && write.memory != write.text) = true :=
  ⟨fun hwhole => absurd hwhole.begun (by decide +kernel), by decide +kernel⟩

end Results

end Wfde
