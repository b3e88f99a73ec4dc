import Wfde.Ftp.Connection
import Wfde.Proof.BufferBounds
import Wfde.Proof.StepFrame

/-!
# The upgrade to TLS

`StartTls` leaves the input buffer alone. What had been received in clear behind the AUTH is still
in it when the handshake is done, and the next call of `FetchNextCommand` begins with it.
-/

namespace Wfde

open Effect WfdeFtpSessionInput

namespace WfdeFtpSessionInput

variable {α : Type} {val : α → UInt8} {s : WfdeFtpSessionInput α}

theorem received_eq (hs : s.Inside) {reads : List (List α)}
    (hfit : ReadsFit (fetchNextCommand val s reads)) :
    ∃ taken, taken <+: reads
      ∧ (fetchNextCommand val s reads).received = s.pending ++ taken.flatten := by
  rw [(fetchNextCommand_follows hs reads hfit).received]
  exact Gather.exists_taken s.pending 0 reads

theorem request_of_received (hs : s.Inside) {reads : List (List α)}
    (hfit : ReadsFit (fetchNextCommand val s reads)) {line : List α}
    (hline : (fetchNextCommand val s reads).outcome = .request line) :
    (∀ b ∈ line, b ∈ (fetchNextCommand val s reads).received)
      ∧ ((fetchNextCommand val s reads).input.Overruns
        ∨ (fetchNextCommand val s reads).input.Inside
          ∧ ∀ b ∈ (fetchNextCommand val s reads).input.pending,
            b ∈ (fetchNextCommand val s reads).received) := by
  have hfollows := fetchNextCommand_follows hs reads hfit
  rw [hfollows.received]
  have hout := hfollows.outcome
  cases hverdict : (search val s reads).verdict with
  | found pos =>
      rw [hverdict] at hout
      obtain ⟨hrequest, hpos, -⟩ := hout
      obtain rfl : _ = line := FetchOutcome.request.inj (hrequest.symm.trans hline)
      refine ⟨fun b => List.mem_of_mem_take, ?_⟩
      by_cases hbehind : pos + 2 ≤ (search val s reads).held.length
      · obtain ⟨-, hinside, hpending, -⟩ := hfollows.next hverdict hbehind
        rw [hpending]
        exact .inr ⟨hinside, fun b => List.mem_of_mem_drop⟩
      · obtain ⟨-, hleft⟩ := hfollows.wrapped hverdict (by omega)
        exact .inl (overruns_of_wrapped hleft)
  | full =>
      rw [hverdict, hline] at hout
      cases hout.1
  | exhausted =>
      rw [hverdict, hline] at hout
      cases hout.1

end WfdeFtpSessionInput

namespace FtpSession

variable {ftp : FtpSession}

section Encryption

/-- Encryption is never given up, and it begins only with a task that has been queued. -/
structure Upgrades (before after : FtpSession) : Prop where
  encrypted : before.state.ccIsEncrypted = true → after.state.ccIsEncrypted = true
  idle : before.state.tasksPendingAfterReply = [] →
    after.state.tasksPendingAfterReply = []
      ∧ after.state.ccIsEncrypted = before.state.ccIsEncrypted

instance : Std.Refl Upgrades := ⟨fun _ => ⟨id, fun h => ⟨h, rfl⟩⟩⟩

instance : IsTrans FtpSession Upgrades where
  trans _ _ _ hab hbc :=
    { encrypted := fun h => hbc.encrypted (hab.encrypted h)
      idle := fun h =>
        have hb := hab.idle h
        have hc := hbc.idle hb.1
        ⟨hc.1, hc.2.trans hb.2⟩ }

theorem upgrades_of_eq {before after : FtpSession}
    (htasks : after.state.tasksPendingAfterReply = before.state.tasksPendingAfterReply)
    (hencrypted : after.state.ccIsEncrypted = before.state.ccIsEncrypted) :
    Upgrades before after :=
  ⟨hencrypted.trans, fun h => ⟨htasks.trans h, hencrypted⟩⟩

theorem SameLoop.upgrades {before after : FtpSession} (h : SameLoop before after) :
    Upgrades before after :=
  upgrades_of_eq (congrArg Core.tasks h.core) (congrArg Core.ccIsEncrypted h.core)

theorem upgrades_replyWritten (env : Env) (written : Bool) :
    Keeps Upgrades (replyWritten env written) := by
  intro ftp
  rw [after_replyWritten]
  cases written with
  | true =>
      rw [if_pos rfl]
      constructor
      · intro hencrypted
        simp [hencrypted]
      · intro htasks
        simp [htasks]
  | false => exact ⟨id, fun h => ⟨h, rfl⟩⟩

theorem upgrades_resume (env : Env) (answer : Answer) : Keeps Upgrades (resume env answer) :=
  keeps_resume
    (fun _ _ h => upgrades_of_eq (congrArg Core.tasks h) (congrArg Core.ccIsEncrypted h))
    (upgrades_replyWritten env) answer

theorem encrypted_step (event : Event) (h : ftp.state.ccIsEncrypted = true) :
    (ftp.step event).state.ccIsEncrypted = true := by
  cases hhandler : ftp.handlerOf event with
  | some entry =>
      obtain ⟨line, -, hbefore, -, -⟩ := handlerOf_eq_some hhandler
      obtain ⟨prev, hsame, -⟩ := sameLoop_frame.of_handlerOf hhandler
      apply hsame.upgrades.encrypted
      have hleaves := keeps_onCmd entry.env entry.param entry.cmd entry.start
      apply hleaves.ccIsEncrypted.trans
      rw [Handled.start, hbefore]
      exact h
  | none =>
      rcases sameLoop_frame.step_other hhandler with hsame | ⟨env, ok, next, -, hsame⟩ | ⟨env, answer, -, hstep⟩
      · exact hsame.upgrades.encrypted h
      · exact hsame.upgrades.encrypted ((upgrades_replyWritten env ok ftp).encrypted h)
      · rw [hstep]
        exact (upgrades_resume env answer ftp).encrypted h

theorem not_fetching_controlReply (env : Env) (reply : FtpReply) (next : AfterReply) :
    (after (controlReply env reply next) ftp).control ≠ .fetching := by
  rcases control_controlReply env reply next ftp with hcontrol | hcontrol
  · rw [hcontrol]
    simp
  · rw [hcontrol]
    simp

theorem not_fetching_handled (env : Env) (cmd : FtpCmd) (reply : FtpReply) :
    (after (handled env cmd (some reply)) ftp).control ≠ .fetching := by
  unfold handled
  rw [after_bind_of_returns (returns_modify _)]
  exact not_fetching_controlReply env reply _

theorem reply_of_auth {reply : Option FtpReply} {left : FtpSession}
    (h : FtpCmdAuth.onCmd.run ftp = .ok reply left) : reply ≠ none := by
  obtain ⟨state, _, -, hreply⟩ := bind_eq_ok.mp h
  split at hreply
  · obtain ⟨rfl, -⟩ := pure_eq_ok.mp hreply
    simp
  · obtain ⟨-, _, -, hreply⟩ := bind_eq_ok.mp hreply
    obtain ⟨rfl, -⟩ := pure_eq_ok.mp hreply
    simp

/-- When the loop waits for a request, no task is queued. -/
def NoTasks (ftp : FtpSession) : Prop :=
  ftp.control = .fetching → ftp.state.tasksPendingAfterReply = []

theorem noTasks_handle (entry : Handled)
    (htasks : entry.before.state.tasksPendingAfterReply = []) :
    NoTasks (after (handle entry.env entry.cmd entry.param) entry.before) := by
  intro hcontrol
  rw [after_handle] at hcontrol ⊢
  cases hresult : entry.result with
  | error e left =>
      rw [hresult] at hcontrol
      exact absurd hcontrol (not_fetching_controlReply entry.env _ _)
  | ok reply left =>
      rw [hresult] at hcontrol
      cases reply with
      | some reply => exact absurd hcontrol (not_fetching_handled entry.env entry.cmd reply)
      | none =>
          have hauth : entry.cmd ≠ .auth := by
            intro hcmd
            rw [Handled.result, hcmd] at hresult
            exact reply_of_auth hresult rfl
          have hleft : left.state.tasksPendingAfterReply = [] := by
            rw [← after_of_ok hresult, ← htasks]
            exact (keeps_onCmd entry.env entry.param entry.cmd entry.start).tasks hauth
          exact ((sameLoop_frame.handled entry.env entry.cmd none left).upgrades.idle hleft).1

theorem noTasks_step (ftp : FtpSession) (event : Event) (h : NoTasks ftp) :
    NoTasks (ftp.step event) := by
  cases step_cases ftp event with
  | idle hstep => rwa [hstep]
  | leaves env hstep =>
      intro hcontrol
      rw [hstep, control_leaveLoop] at hcontrol
      cases hcontrol
  | replies env reply next _ hstep =>
      rw [hstep]
      exact fun hcontrol => absurd hcontrol (not_fetching_controlReply env reply next)
  | ignores env hcontrol hstep =>
      rw [hstep]
      exact fun _ => ((sameLoop_frame.silent.nextCommand env ftp).upgrades.idle (h hcontrol)).1
  | handles entry hcontrol _ hbefore hstep =>
      obtain rfl := hbefore
      rw [hstep]
      exact noTasks_handle entry (h hcontrol)
  | written env ok next hcontrol hstep =>
      rw [hstep, after_replyWritten]
      intro hfetching
      refine ((sameLoop_frame.silent.afterReply env next _).upgrades.idle ?_).1
      cases ok with
      | true => rfl
      | false =>
          -- the write has failed, so the loop is not gone on with
          rcases control_afterReply env next { ftp with replyFailed := true } with
            ⟨-, -, hcan⟩ | hended
          · simp [canReply] at hcan
          · rw [if_neg (by simp), hended] at hfetching
            cases hfetching
  | resumes env answer _ hstep =>
      rw [hstep]
      intro hcontrol
      have hsame := (keeps_resume_tasks env answer ftp).control
      exact ((upgrades_resume env answer ftp).idle (h (hsame.symm.trans hcontrol))).1

end Encryption

end FtpSession

open FtpSession

section Connections

variable {c : Connection} {past : List Fetch} {fetch : Fetch}

theorem fetchOf_eq_some {event : ConnectionEvent} (h : c.fetchOf event = some fetch) :
    fetch.before = c ∧ c.ftp.control = .fetching ∧ c.crashed = false ∧ ReadsFit fetch.result := by
  cases event with
  | fetch env reads =>
      unfold Connection.fetchOf at h
      dsimp only at h
      split at h
      · obtain rfl := Option.some.inj h
        exact ⟨rfl, ‹_›⟩
      · cases h
  | _ => cases h

theorem eventOf_of_fetchOf {event : ConnectionEvent} (h : c.fetchOf event = some fetch) :
    c.eventOf event = fetch.event := by
  obtain ⟨-, -, hcrashed, -⟩ := fetchOf_eq_some h
  unfold Connection.eventOf
  rw [hcrashed, if_neg (by simp)]
  cases event with
  | fetch env reads =>
      dsimp only
      rw [h]
      rfl
  | _ => cases h

theorem ftp_step (c : Connection) (event : ConnectionEvent) :
    (c.step event).ftp = c.ftp ∨ ∃ e, (c.step event).ftp = c.ftp.step e := by
  cases hevent : c.eventOf event with
  | none =>
      left
      simp only [Connection.step, hevent]
  | some e =>
      right
      exact ⟨e, by simp only [Connection.step, hevent]⟩

theorem live_connection {event : ConnectionEvent} (h : Live (c.step event).ftp) : Live c.ftp := by
  rcases ftp_step c event with hsame | ⟨e, hstep⟩
  · rwa [hsame] at h
  · rw [hstep] at h
    exact live_of_live_step h

theorem encrypted_connection (event : ConnectionEvent) (h : c.ftp.state.ccIsEncrypted = true) :
    (c.step event).ftp.state.ccIsEncrypted = true := by
  rcases ftp_step c event with hsame | ⟨e, hstep⟩
  · rwa [hsame]
  · rw [hstep]
    exact encrypted_step e h

theorem exists_request {event : ConnectionEvent} (h : c.fetchOf event = some fetch)
    (hlive : Live (c.step event).ftp) (hcrashed : (c.step event).crashed = false) :
    ∃ line, fetch.result.outcome = .request line := by
  obtain ⟨hbefore, hcontrol, -, -⟩ := fetchOf_eq_some h
  have hevent := eventOf_of_fetchOf h
  cases houtcome : fetch.result.outcome with
  | request line => exact ⟨line, rfl⟩
  | inputTooBig =>
      have hstep : (c.step event).ftp = c.ftp.step (.inputTooBig fetch.env) := by
        simp only [Connection.step, hevent, Fetch.event, houtcome]
      rw [hstep, FtpSession.step, if_pos hcontrol] at hlive
      exact absurd hlive (not_live_controlReply (by simp))
  | noInput =>
      have hstep : (c.step event).ftp = c.ftp.step (.noInput fetch.env) := by
        simp only [Connection.step, hevent, Fetch.event, houtcome]
      rw [hstep, FtpSession.step, if_pos hcontrol, Live, control_leaveLoop] at hlive
      simp at hlive
  | overrun => simp [Connection.step, h, Fetch.event, houtcome] at hcrashed

theorem waiting_step {event : ConnectionEvent} (htasks : NoTasks c.ftp)
    (hcontrol : c.ftp.control = .fetching) (hfetch : c.fetchOf event = none) :
    (c.step event).input = c.input
      ∧ (c.step event).ftp.state.ccIsEncrypted = c.ftp.state.ccIsEncrypted := by
  refine ⟨by simp only [Connection.step, hfetch], ?_⟩
  cases hevent : c.eventOf event with
  | none => simp only [Connection.step, hevent]
  | some e =>
      have hstep : (c.step event).ftp = c.ftp.step e := by simp only [Connection.step, hevent]
      rw [hstep]
      unfold Connection.eventOf at hevent
      split at hevent
      · cases hevent
      · cases event with
        | fetch env reads =>
            dsimp only at hevent
            rw [hfetch] at hevent
            cases hevent
        | start env =>
            obtain rfl := Option.some.inj hevent
            rw [FtpSession.step, if_neg (by simp [hcontrol])]
        | written env ok =>
            obtain rfl := Option.some.inj hevent
            simp only [FtpSession.step, hcontrol]
        | transfer env answer =>
            obtain rfl := Option.some.inj hevent
            exact ((upgrades_resume env answer c.ftp).idle (htasks hcontrol)).2

theorem noTasks_run (htasks : NoTasks c.ftp) (events : List ConnectionEvent) :
    NoTasks (c.run events).ftp := by
  refine Machine.run_induction Connection.step (fun c => NoTasks c.ftp) ?_ htasks events
  intro c event h
  rcases ftp_step c event with hsame | ⟨e, hstep⟩
  · rwa [hsame]
  · rw [hstep]
    exact noTasks_step c.ftp e h

end Connections

section Bytes

variable {fetch : Fetch}

theorem secure_of_receive {secure : Bool} {reads : List Bytes} {taken : List (List ReceivedByte)}
    (htaken : taken <+: receive secure reads) : ∀ b ∈ taken.flatten, b.secure = secure := by
  intro b hb
  obtain ⟨read, hread, hmem⟩ := List.mem_flatten.mp hb
  obtain ⟨chunk, -, rfl⟩ := List.mem_map.mp (htaken.subset hread)
  obtain ⟨val, -, rfl⟩ := List.mem_map.mp hmem
  rfl

theorem secure_of_received (hinside : fetch.before.input.Inside) (hfit : ReadsFit fetch.result)
    (hpending : ∀ b ∈ fetch.before.input.pending, b.secure = fetch.encrypted) :
    ∀ b ∈ fetch.result.received, b.secure = fetch.encrypted := by
  obtain ⟨taken, htaken, hreceived⟩ := received_eq hinside hfit
  intro b hb
  rw [Fetch.result, hreceived] at hb
  exact (List.mem_append.mp hb).elim (hpending b) (secure_of_receive htaken b)

end Bytes

section Runs

variable {c : Connection} {past : List Fetch} {fetch : Fetch}

/-- The first call behind the handshake begins with no byte left over, unless it does not survive
the count that the call before it has left. -/
def StartsDrained (fetches : List Fetch) : Prop :=
  ∀ past fetch later, fetches = past ++ fetch :: later → fetch.encrypted = true →
    (∀ earlier ∈ past, earlier.encrypted = false) →
      fetch.before.input.bytesLeftover = 0 ∨ fetch.before.input.Overruns

/-- No byte that arrived in clear is taken up, neither in a request nor in what is searched for
one. -/
structure NoneInClear (fetch : Fetch) : Prop where
  line : ∀ line, fetch.result.outcome = .request line → ∀ b ∈ line, b.secure = true
  received : ∀ b ∈ fetch.result.received, b.secure = true

/-- What is left over has come in the same way as what the calls so far have read last. -/
structure TlsInv (past : List Fetch) (c : Connection) : Prop where
  encrypted : past.any Fetch.encrypted = true → c.ftp.state.ccIsEncrypted = true
  pending : StartsDrained past → Live c.ftp → c.crashed = false →
    c.input.Overruns
      ∨ c.input.Inside ∧ ∀ b ∈ c.input.pending, b.secure = past.any Fetch.encrypted

theorem StartsDrained.of_append {later : List Fetch} (h : StartsDrained (past ++ later)) :
    StartsDrained past := by
  intro front fetch back hpast
  apply h front fetch (back ++ later)
  rw [hpast, List.append_assoc, List.cons_append]

theorem startsDrained_of_clear (h : past.any Fetch.encrypted = false) : StartsDrained past := by
  rintro front fetch back rfl hencrypted
  rw [List.any_append, List.any_cons, hencrypted] at h
  simp at h

theorem TlsInv.begins {event : ConnectionEvent} (h : TlsInv past c)
    (hfetch : c.fetchOf event = some fetch) (hdrained : StartsDrained (past ++ [fetch])) :
    fetch.before.input.Overruns
      ∨ fetch.before.input.Inside
        ∧ ∀ b ∈ fetch.before.input.pending, b.secure = fetch.encrypted := by
  obtain ⟨rfl, hcontrol, hcrashed, -⟩ := fetchOf_eq_some hfetch
  rcases h.pending hdrained.of_append (.inr (.inl hcontrol)) hcrashed with hover | ⟨hinside, hpending⟩
  · exact .inl hover
  · cases hany : past.any Fetch.encrypted with
    | true =>
        rw [hany] at hpending
        have hencrypted : fetch.encrypted = true := h.encrypted hany
        rw [hencrypted]
        exact .inr ⟨hinside, hpending⟩
    | false =>
        rw [hany] at hpending
        cases hencrypted : fetch.encrypted with
        | false => exact .inr ⟨hinside, hpending⟩
        | true =>
            -- the first call behind the handshake
            have hclear : ∀ earlier ∈ past, earlier.encrypted = false := by simpa using hany
            refine (hdrained past fetch [] rfl hencrypted hclear).symm.imp_right fun hzero => ?_
            exact ⟨hinside, by simp [pending_eq_nil hzero]⟩

theorem TlsInv.any_concat {event : ConnectionEvent} (h : TlsInv past c)
    (hfetch : c.fetchOf event = some fetch) :
    (past ++ [fetch]).any Fetch.encrypted = fetch.encrypted := by
  obtain ⟨rfl, -⟩ := fetchOf_eq_some hfetch
  rw [List.any_append, List.any_cons, List.any_nil, Bool.or_false, Bool.or_eq_right_iff_imp]
  exact h.encrypted

theorem tlsInv_step (past : List Fetch) (c : Connection) (event : ConnectionEvent)
    (h : TlsInv past c) :
    TlsInv (past ++ (c.fetchOf event).toList) (c.step event) := by
  cases hfetch : c.fetchOf event with
  | none =>
      rw [Option.toList_none, List.append_nil]
      have hinput : (c.step event).input = c.input := by simp only [Connection.step, hfetch]
      have hcrashed : (c.step event).crashed = c.crashed := by simp only [Connection.step, hfetch]
      constructor
      · exact fun hany => encrypted_connection event (h.encrypted hany)
      · rw [hinput, hcrashed]
        exact fun hdrained hlive => h.pending hdrained (live_connection hlive)
  | some fetch =>
      rw [Option.toList_some]
      have hinput : (c.step event).input = fetch.result.input := by
        simp only [Connection.step, hfetch]
      have hany := h.any_concat hfetch
      obtain ⟨hbefore, -, -, hfit⟩ := fetchOf_eq_some hfetch
      constructor
      · rw [hany, Fetch.encrypted, hbefore]
        exact encrypted_connection event
      · intro hdrained hlive hcrashed
        rw [hinput, hany]
        obtain ⟨line, hline⟩ := exists_request hfetch hlive hcrashed
        rcases h.begins hfetch hdrained with hover | ⟨hinside, hpending⟩
        · rw [Fetch.result, fetchNextCommand_of_overruns hover] at hline
          cases hline
        · refine (request_of_received hinside hfit hline).2.imp_right fun hleft => ⟨hleft.1, ?_⟩
          intro b hb
          exact secure_of_received hinside hfit hpending b (hleft.2 b hb)

theorem tlsInv_of_fetches_eq (hstart : TlsInv [] c) {events : List ConnectionEvent}
    {later : List Fetch} (h : c.fetches events = past ++ fetch :: later) :
    TlsInv past fetch.before ∧ ∃ event, fetch.before.fetchOf event = some fetch := by
  obtain ⟨front, event, -, -, hpast, hfetch⟩ :=
    Machine.exists_of_trace_eq Connection.step Connection.fetchOf h
  have hinv : TlsInv past (c.run front) := by
    rw [← hpast]
    exact Machine.trace_induction Connection.step Connection.fetchOf TlsInv tlsInv_step hstart front
  obtain ⟨hbefore, -⟩ := fetchOf_eq_some hfetch
  rw [hbefore]
  exact ⟨hinv, event, hfetch⟩

theorem noneInClear_of_begins (hfit : ReadsFit fetch.result) (hencrypted : fetch.encrypted = true)
    (h : fetch.before.input.Overruns ∨ fetch.before.input.Inside
      ∧ ∀ b ∈ fetch.before.input.pending, b.secure = fetch.encrypted) : NoneInClear fetch := by
  rcases h with hover | ⟨hinside, hpending⟩
  · have hresult : fetch.result = _ := fetchNextCommand_of_overruns hover
    constructor
    · intro line hline
      rw [hresult] at hline
      cases hline
    · rw [hresult]
      simp
  · have hreceived := secure_of_received hinside hfit hpending
    rw [hencrypted] at hreceived
    refine ⟨fun line hline b hb => ?_, hreceived⟩
    exact hreceived b ((request_of_received hinside hfit hline).1 b hb)

theorem bytesLeftover_eq_zero (hinside : fetch.before.input.Inside) (hfit : ReadsFit fetch.result)
    (hpending : ∀ b ∈ fetch.before.input.pending, b.secure = false) (h : NoneInClear fetch) :
    fetch.before.input.bytesLeftover = 0 := by
  obtain ⟨taken, -, hreceived⟩ := received_eq hinside hfit
  have hnil : fetch.before.input.pending = [] := by
    refine List.eq_nil_iff_forall_not_mem.mpr fun b hb => ?_
    have hsecure := h.received b (by rw [Fetch.result, hreceived]; exact List.mem_append_left _ hb)
    rw [hpending b hb] at hsecure
    cases hsecure
  rw [← pending_length hinside, hnil, List.length_nil]

end Runs

section Fresh

variable (permissions : Permissions) (disk : Disk) (segmentSize : Nat)
  (storage : {b : List ReceivedByte // b.length = inputBufferSize}) (events : List ConnectionEvent)

/-- As long as the command loop waits in `FetchNextCommand`, neither the input nor the encryption
change, so the reads of a call are all in clear or all encrypted. -/
theorem sameEncryption_waiting {event : ConnectionEvent} {c : Connection}
    (hc : c = (Connection.fresh permissions disk segmentSize storage).run events)
    (hcontrol : c.ftp.control = .fetching) (hfetch : c.fetchOf event = none) :
    (c.step event).input = c.input
      ∧ (c.step event).ftp.state.ccIsEncrypted = c.ftp.state.ccIsEncrypted := by
  have htasks : NoTasks c.ftp := by
    rw [hc]
    exact noTasks_run (fun _ => rfl) events
  exact waiting_step htasks hcontrol hfetch

/-- **No byte in clear behind the handshake.** In a run of a fresh connection the calls of
`FetchNextCommand` behind the handshake take up no byte that arrived in clear if and only if the
first of them begins with no byte left over. -/
theorem noneInClear_iff :
    (∀ fetch ∈ (Connection.fresh permissions disk segmentSize storage).fetches events,
        fetch.encrypted = true → NoneInClear fetch)
      ↔ StartsDrained ((Connection.fresh permissions disk segmentSize storage).fetches events) := by
  have hstart : TlsInv [] (Connection.fresh permissions disk segmentSize storage) := by
    refine ⟨by simp, fun _ _ _ => .inr ⟨⟨storage.property, Nat.zero_le _⟩, ?_⟩⟩
    rw [pending_eq_nil rfl]
    simp
  constructor
  · intro hnone past fetch later hfetches hencrypted hclear
    obtain ⟨hinv, event, hfetch⟩ := tlsInv_of_fetches_eq hstart hfetches
    obtain ⟨-, hcontrol, hcrashed, hfit⟩ := fetchOf_eq_some hfetch
    have hany : past.any Fetch.encrypted = false := by simpa using hclear
    have hbefore := hinv.pending (startsDrained_of_clear hany) (.inr (.inl hcontrol)) hcrashed
    rw [hany] at hbefore
    refine hbefore.symm.imp_left fun ⟨hinside, hpending⟩ => ?_
    refine bytesLeftover_eq_zero hinside hfit hpending (hnone fetch ?_ hencrypted)
    rw [hfetches]
    simp
  · intro hdrained fetch hmem hencrypted
    obtain ⟨past, later, hfetches⟩ := List.append_of_mem hmem
    obtain ⟨hinv, event, hfetch⟩ := tlsInv_of_fetches_eq hstart hfetches
    obtain ⟨-, -, -, hfit⟩ := fetchOf_eq_some hfetch
    have hpast : StartsDrained (past ++ [fetch]) := by
      rw [hfetches, ← List.singleton_append, ← List.append_assoc] at hdrained
      exact hdrained.of_append
    exact noneInClear_of_begins hfit hencrypted (hinv.begins hfetch hpast)

end Fresh

/-- AUTH and a NOOP that is sent right behind it, in clear. -/
def pipelined : List ConnectionEvent :=
  [.start {}, .written {} true, .fetch {} [bytes "AUTH TLS\r\nNOOP\r\n"], .written {} true,
    .fetch {} []]

def blankInput : {b : List ReceivedByte // b.length = inputBufferSize} :=
  ⟨List.replicate inputBufferSize ⟨0, false⟩, List.length_replicate⟩

def bareServer : Connection :=
  Connection.fresh ⟨[], by decide, by decide⟩ ⟨⟨fun _ => none, fun _ _ => false⟩, []⟩ 4096 blankInput

/-- The NOOP is executed behind the handshake. -/
theorem not_noneInClear_pipelined :
    let fetches := bareServer.fetches pipelined
    (fetches.map fun fetch => (fetch.encrypted, fetch.result.outcome))
        = [(false, .request ((bytes "AUTH TLS").map fun val => ⟨val, false⟩)),
          (true, .request ((bytes "NOOP").map fun val => ⟨val, false⟩))]
      ∧ ¬ ∀ fetch ∈ fetches, fetch.encrypted = true → NoneInClear fetch := by
  intro fetches
  have houtcomes : (fetches.map fun fetch => (fetch.encrypted, fetch.result.outcome))
      = [(false, .request ((bytes "AUTH TLS").map fun val => ⟨val, false⟩)),
        (true, .request ((bytes "NOOP").map fun val => ⟨val, false⟩))] := by decide
  refine ⟨houtcomes, fun hnone => ?_⟩
  have hmem : (true, FetchOutcome.request ((bytes "NOOP").map fun val => ReceivedByte.mk val false))
      ∈ fetches.map fun fetch => (fetch.encrypted, fetch.result.outcome) := by
    rw [houtcomes]
    simp
  obtain ⟨fetch, hfetch, hpair⟩ := List.mem_map.mp hmem
  obtain ⟨hencrypted, houtcome⟩ := Prod.mk.inj hpair
  have hsecure := (hnone fetch hfetch hencrypted).line _ houtcome ⟨78, false⟩ (by decide)
  cases hsecure

end Wfde
