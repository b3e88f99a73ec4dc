import Wfde.Proof.Replies

/-!
# Setting up a transfer

A transfer is started only when none runs, and what PORT or PASV has set up stays as it is until the
data connection is made: no command that would change it is taken during a transfer. Only the
callback of an earlier transfer that could not accept its connection closes the acceptor of the next
one.
-/

namespace Wfde

open Effect FtpSession

namespace FtpSession

def Listens (ftp : FtpSession) : Prop := ∃ address, ftp.state.pasv = some ⟨true, address⟩

/-- No handler calls `abort_transfer_` while it is left over from an earlier transfer and closes the
acceptor. -/
def sparesAcceptor (ftp : FtpSession) (event : Event) : Bool :=
  match ftp.handlerOf event with
  | none => true
  | some entry =>
      ftp.abortTransfer != some .acceptor || ftp.transferFile == some .accepting
        || (entry.cmd != .abor && !(entry.cmd.startsTransfer && ftp.state.abortPending))

/-- What a transfer finds of its set-up. -/
structure FindsSetup (ftp : FtpSession) (event : Event) : Prop where
  /-- `StartTransfer` is called when no coroutine is alive. -/
  one : ∀ entry, ftp.handlerOf event = some entry → entry.cmd.startsTransfer = true →
    ftp.transferFile = none
  others : ∀ entry, ftp.handlerOf event = some entry → entry.cmd.startsTransfer = false →
    entry.after.transferFile = ftp.transferFile
  /-- The assertions at the head of `TransferFile`. -/
  starts : ftp.transferFile = some .spawned →
    ftp.currentFile.isSome = true ∧ ftp.transferSck = none
  /-- The PASV branch is taken. -/
  passive : ftp.transferFile ≠ some .accepting → (ftp.step event).transferFile = some .accepting →
    ftp.Listens
  /-- `DoPort` is called or runs. -/
  port : (ftp.step event).transferFile = some .connecting ∨ ftp.transferFile = some .connecting →
    ftp.state.initiation = .port

section Handlers

variable {cmd : FtpCmd} {before after : FtpSession}

/-- A handler leaves the coroutine and its file alone, or starts it on a file. -/
def Launches (cmd : FtpCmd) (before after : FtpSession) : Prop :=
  after.transferFile = before.transferFile ∧ after.currentFile = before.currentFile
    ∨ cmd.startsTransfer = true ∧ after.transferFile = some .spawned
      ∧ after.currentFile.isSome = true

instance : Std.Refl (Launches cmd) := ⟨fun _ => .inl ⟨rfl, rfl⟩⟩

instance : IsTrans FtpSession (Launches cmd) where
  trans _ _ _ hab hbc := by
    rcases hbc with ⟨hphase, hfile⟩ | hstarted
    · rw [Launches, hphase, hfile]
      exact hab
    · exact .inr hstarted

theorem launches_frame (cmd : FtpCmd) : Frame (Launches cmd) cmd where
  calls _ _ := .inl ⟨rfl, rfl⟩
  state _ _ _ := .inl ⟨rfl, rfl⟩
  disk _ _ _ := .inl ⟨rfl, rfl⟩
  login _ _ _ := .inl ⟨rfl, rfl⟩
  cwd _ _ _ := .inl ⟨rfl, rfl⟩
  start hstarts file ftp := by
    rw [after_startTransfer]
    exact .inr ⟨hstarts, rfl, rfl⟩

theorem launches_onCmd (env : Env) (param : Bytes) (cmd : FtpCmd) :
    Keeps (Launches cmd) (cmd.onCmd env param) := (launches_frame cmd).onCmd env param

def withAcceptor (ftp : FtpSession) (acceptor : PasvAcceptor) : FtpSession :=
  { ftp with
    calls := ftp.calls ++ [.listen]
    state := { ftp.state with pasv := some acceptor } }

theorem openAcceptor_run (env : Env) (ftp : FtpSession) :
    (openAcceptor env).run ftp
      = (if ftp.state.pasv.isNone then listen env else return ()).run ftp := rfl

theorem openAcceptor_of_some {env : Env} {ftp : FtpSession} {acceptor : PasvAcceptor}
    (h : ftp.state.pasv = some acceptor) : (openAcceptor env).run ftp = .ok () ftp := by
  rw [openAcceptor_run, h]
  rfl

theorem openAcceptor_of_none {env : Env} {ftp : FtpSession} (h : ftp.state.pasv = none) :
    (openAcceptor env).run ftp = match env.listen with
      | some address => .ok () (ftp.withAcceptor ⟨true, address⟩)
      | none => .error .systemError (ftp.withAcceptor {}) := by
  rw [openAcceptor_run, h, Option.isNone_none, if_pos rfl, listen]
  cases env.listen with
  | some address => rfl
  | none => rfl

def replyPassive : Handler := do
  match (← getState).pasv with
  | some ⟨true, address⟩ =>
      let numbers := address.address ++ [address.port / 256 % 256, address.port % 256]
      modifyState FtpState.setPasv
      Handler.answer .passive
        (bytes "Entering Passive Mode (" ++ [44].intercalate (numbers.map decimal) ++ bytes ")")
  | _ => throw .systemError

theorem pasv_eq (env : Env) : FtpCmdPasv.onCmd env = openAcceptor env >>= fun _ => replyPassive :=
  rfl

theorem replyPassive_run (ftp : FtpSession) :
    (∃ reply, ftp.Listens ∧ replyPassive.run ftp = .ok (some reply)
        { ftp with state := ftp.state.setPasv })
      ∨ ¬ ftp.Listens ∧ replyPassive.run ftp = .error .systemError ftp := by
  unfold replyPassive Listens
  rw [EStateM.run_bind, show getState.run ftp = .ok ftp.state ftp from rfl]
  dsimp only
  rcases ftp.state.pasv with _ | ⟨_ | _, address⟩
  · exact .inr ⟨by simp, rfl⟩
  · exact .inr ⟨by simp, rfl⟩
  · exact .inl ⟨_, ⟨address, rfl⟩, rfl⟩

theorem pasv_run (env : Env) (ftp : FtpSession) :
    (∃ reply left, (FtpCmdPasv.onCmd env).run ftp = .ok (some reply) left ∧ left.Listens
        ∧ (ftp.Listens ∨ ftp.state.pasv = none ∧ env.listen.isSome = true))
      ∨ ∃ e left, (FtpCmdPasv.onCmd env).run ftp = .error e left
        ∧ left.state.initiation = ftp.state.initiation
        ∧ (ftp.state.pasv.isSome = true → left.state.pasv = ftp.state.pasv)
        ∧ ¬ ftp.Listens ∧ (ftp.state.pasv = none → env.listen = none) := by
  rw [pasv_eq, EStateM.run_bind]
  cases hpasv : ftp.state.pasv with
  | some acceptor =>
      rw [openAcceptor_of_some hpasv]
      dsimp only
      rcases replyPassive_run ftp with ⟨reply, hlistens, hrun⟩ | ⟨hnot, hrun⟩
      · exact .inl ⟨reply, _, hrun, hlistens, .inl hlistens⟩
      · exact .inr ⟨_, ftp, hrun, rfl, fun _ => hpasv, hnot, nofun⟩
  | none =>
      rw [openAcceptor_of_none hpasv]
      cases hlisten : env.listen with
      | none =>
          refine .inr ⟨_, _, rfl, rfl, nofun, ?_, fun _ => rfl⟩
          rintro ⟨address, haddress⟩
          rw [hpasv] at haddress
          cases haddress
      | some address =>
          dsimp only
          rcases replyPassive_run (ftp.withAcceptor ⟨true, address⟩) with
            ⟨reply, hlistens, hrun⟩ | ⟨hnot, -⟩
          · exact .inl ⟨reply, _, hrun, hlistens, .inr ⟨rfl, rfl⟩⟩
          · exact absurd ⟨address, rfl⟩ hnot

theorem port_run (param : Bytes) (ftp : FtpSession) :
    (∃ address reply left, FtpCmdPort.makeAddressV4 ((param.splitOn 44).take 4) = some address
        ∧ (FtpCmdPort.onCmd param).run ftp = .ok (some reply) left
        ∧ left.state.initiation = .port)
      ∨ FtpCmdPort.makeAddressV4 ((param.splitOn 44).take 4) = none
        ∧ (FtpCmdPort.onCmd param).run ftp = .error .systemError ftp := by
  unfold FtpCmdPort.onCmd
  dsimp only
  cases FtpCmdPort.makeAddressV4 ((param.splitOn 44).take 4) with
  | none => exact .inr ⟨rfl, rfl⟩
  | some address => exact .inl ⟨address, _, _, rfl, rfl, rfl⟩

/-- A handler that leaves PASV as the initiation leaves an acceptor that listens, if there was one
for an initiation by PASV. -/
theorem listens_onCmd (env : Env) (param : Bytes) (cmd : FtpCmd) (ftp : FtpSession)
    (h : ftp.state.initiation = .pasv → ftp.Listens)
    (hleft : (Effect.after (cmd.onCmd env param) ftp).state.initiation = .pasv) :
    (Effect.after (cmd.onCmd env param) ftp).Listens := by
  by_cases hpasv : cmd = .pasv
  · subst hpasv
    rw [FtpCmd.onCmd] at hleft ⊢
    rcases pasv_run env ftp with ⟨reply, left, hrun, hlistens, -⟩ | ⟨e, left, hrun, hsame, hkept, -⟩
    · rwa [after_of_ok hrun]
    · rw [after_of_error hrun] at hleft ⊢
      obtain ⟨address, haddress⟩ := h (hsame ▸ hleft)
      exact ⟨address, (hkept (by rw [haddress]; rfl)).trans haddress⟩
  · by_cases hport : cmd = .port
    · subst hport
      rw [FtpCmd.onCmd] at hleft ⊢
      rcases port_run param ftp with ⟨-, reply, left, -, hrun, hset⟩ | ⟨-, hrun⟩
      · rw [after_of_ok hrun, hset] at hleft
        cases hleft
      · rw [after_of_error hrun] at hleft ⊢
        exact h hleft
    · obtain ⟨hinitiation, hacceptor⟩ :=
        (touches_onCmd env param cmd ftp).initiation hport hpasv
      obtain ⟨address, haddress⟩ := h (hinitiation ▸ hleft)
      exact ⟨address, hacceptor.trans haddress⟩

end Handlers

section Loop

variable {env : Env} {ftp : FtpSession}

/-- The acceptor is left alone unless the session is closed. -/
structure Spares (before after : FtpSession) : Prop where
  closed : before.closed = true → after.closed = true
  pasv : after.closed = true ∨ after.state.pasv = before.state.pasv

instance : Std.Refl Spares := ⟨fun _ => ⟨id, .inr rfl⟩⟩

instance : IsTrans FtpSession Spares where
  trans _ _ _ hab hbc :=
    { closed := hbc.closed ∘ hab.closed
      pasv := by
        rcases hbc.pasv with hclosed | hsame
        · exact .inl hclosed
        · rw [hsame]
          exact hab.pasv.imp_left hbc.closed }

theorem closed_leaveLoop (env : Env) (ftp : FtpSession) :
    (after (leaveLoop env) ftp).closed = true := by
  have habort (ftp : FtpSession) (hclosed : ftp.closed = true) :
      (after callAbort ftp).closed = true := by
    unfold callAbort
    rw [after_bind_of_ok (EStateM.run_get ftp)]
    split <;> exact hclosed
  unfold leaveLoop
  rw [after_bind_of_returns (returns_doClose env)]
  change (after (doClose env) ftp).closed = true
  unfold doClose
  rw [after_bind_of_ok (EStateM.run_get ftp)]
  cases hclosed : ftp.closed with
  | true => exact hclosed
  | false =>
      rw [if_pos (by simp), after_bind_of_returns (show Returns close from returns_modify _),
        after_bind_of_returns (returns_modify _)]
      split
      · exact habort _ rfl
      · rfl

theorem spares_nextCommand (env : Env) : Keeps Spares (nextCommand env) := by
  intro ftp
  unfold nextCommand
  rw [after_bind_of_ok (EStateM.run_get ftp)]
  split
  · exact ⟨id, .inr rfl⟩
  · have hclosed := closed_leaveLoop env ftp
    exact ⟨fun _ => hclosed, .inl hclosed⟩

theorem spares_afterReply (env : Env) (next : AfterReply) : Keeps Spares (afterReply env next) := by
  have hflag (ftp ftp' : FtpSession) (hclosed : ftp'.closed = ftp.closed)
      (hpasv : ftp'.state.pasv = ftp.state.pasv) : Spares ftp ftp' :=
    ⟨fun h => hclosed.trans h, .inr hpasv⟩
  cases next with
  | loop => exact spares_nextCommand env
  | endSession =>
      exact keeps_bind (keeps_modify fun ftp => hflag ftp _ rfl rfl) fun _ => spares_nextCommand env
  | closePending =>
      exact keeps_bind (keeps_modify fun ftp => hflag ftp _ rfl rfl) fun _ => spares_nextCommand env
  | leave =>
      intro ftp
      have hclosed := closed_leaveLoop env ftp
      exact ⟨fun _ => hclosed, .inl hclosed⟩

theorem spares_controlReply (env : Env) (reply : FtpReply) (next : AfterReply) :
    Keeps Spares (controlReply env reply next) := by
  refine keeps_bind keeps_get fun ftp => keeps_ite (keeps_modify fun ftp => ?_)
    (spares_afterReply env next)
  exact ⟨id, .inr rfl⟩

theorem spares_callAbort (h : ftp.abortTransfer ≠ some .acceptor) :
    Spares ftp (after callAbort ftp) := by
  unfold callAbort
  rw [after_bind_of_ok (EStateM.run_get ftp)]
  split
  · exact ⟨id, .inr rfl⟩
  · contradiction
  · exact ⟨id, .inr rfl⟩

/-- Behind a handler the acceptor is left alone unless the callback for it is called. -/
theorem spares_handled (cmd : FtpCmd) (reply : Option FtpReply)
    (h : reply = none → ftp.state.abortPending = true → ftp.abortTransfer ≠ some .acceptor) :
    Spares ftp (after (handled env cmd reply) ftp) := by
  let named : FtpSession := { ftp with prevCmdName := some cmd }
  have hnamed : Spares ftp named := ⟨id, .inr rfl⟩
  unfold handled
  rw [after_bind_of_returns (returns_modify _)]
  refine IsTrans.trans ftp named _ hnamed ?_
  cases reply with
  | some reply => exact spares_controlReply env _ _ named
  | none =>
      change Spares named (after _ named)
      rw [after_bind_of_ok (show getState.run named = .ok named.state named from rfl)]
      by_cases hpending : named.state.abortPending = true
      · have hspares : Spares named (after callAbort named) :=
          spares_callAbort (h rfl hpending)
        rw [if_pos hpending, after_bind_of_returns returns_callAbort]
        refine IsTrans.trans _ _ _ hspares ?_
        exact keeps_bind (keeps_modify fun _ => ⟨id, .inr rfl⟩) (fun _ => spares_nextCommand env) _
      · rw [if_neg hpending]
        exact spares_nextCommand env named

/-- Without a handler, and outside a turn of the transfer coroutine. -/
theorem spares_idle {event : Event} (h : ftp.handlerOf event = none)
    (hevent : ∀ env answer, event ≠ .transfer env answer) : Spares ftp (ftp.step event) := by
  cases step_cases ftp event with
  | idle hstep =>
      rw [hstep]
      exact Std.Refl.refl ftp
  | leaves env hstep =>
      rw [hstep]
      exact ⟨fun _ => closed_leaveLoop env ftp, .inl (closed_leaveLoop env ftp)⟩
  | replies env reply next _ hstep =>
      rw [hstep]
      exact spares_controlReply env reply next ftp
  | ignores env _ hstep =>
      rw [hstep]
      exact spares_nextCommand env ftp
  | handles entry _ hhandler =>
      rw [h] at hhandler
      cases hhandler
  | written env ok next _ hstep =>
      have hwritten : Spares ftp (after (replyWritten env ok) ftp) := by
        rw [after_replyWritten]
        split <;> exact ⟨id, .inr rfl⟩
      rw [hstep]
      exact IsTrans.trans _ _ _ hwritten (spares_afterReply env next _)
  | resumes env answer htransfer => exact absurd htransfer (hevent env answer)

end Loop

section Invariant

variable {ftp left : FtpSession} {env : Env} {answer : Answer} {event : Event}

/-- What is set up for the transfer that runs or for the next one. -/
structure Prepared (ftp : FtpSession) : Prop where
  idle : ftp.transferFile = none → ftp.state.transfer = .none ∧ ftp.transferSck = none
  busy : ftp.transferFile ≠ none → ftp.state.transfer ≠ .none
  spawned : ftp.transferFile = some .spawned → ftp.currentFile.isSome = true
  starting : ∀ phase, ftp.transferFile = some phase → IsStarting phase →
    ftp.transferSck = none ∧ ftp.state.initiation ≠ .none
  connecting : ftp.transferFile = some .connecting → ftp.state.initiation = .port

/-- The acceptor that PASV has named listens until it is used. -/
def Holds (ftp : FtpSession) : Prop :=
  ftp.closed = false → (∀ phase, ftp.transferFile = some phase → IsStarting phase) →
    ftp.state.initiation = .pasv → ftp.Listens

theorem Prepared.isInTransfer_iff (h : Prepared ftp) :
    ftp.transferFile ≠ none ↔ ftp.state.isInTransfer = true := by
  rw [FtpState.isInTransfer, bne_iff_ne]
  exact ⟨h.busy, fun hbusy hnone => hbusy (h.idle hnone).1⟩

theorem Prepared.of_loops (h : Prepared ftp) (hloop : Loops ftp left) : Prepared left := by
  have hinitiation : left.state.initiation = ftp.state.initiation :=
    congrArg Terms.initiation hloop.terms
  have htransfer : left.state.transfer = ftp.state.transfer :=
    congrArg Terms.transfer hloop.terms
  have hnone (hsck : ftp.transferSck = none) : left.transferSck = none := by
    rw [← Option.not_isSome_iff_eq_none, hloop.transferSck, hsck]
    simp
  constructor
  · rw [hloop.transferFile, htransfer]
    exact fun hidle => ⟨(h.idle hidle).1, hnone (h.idle hidle).2⟩
  · rw [hloop.transferFile, htransfer]
    exact h.busy
  · rw [hloop.transferFile, hloop.currentFile]
    exact h.spawned
  · intro phase hphase hstarting
    rw [hloop.transferFile] at hphase
    obtain ⟨hsck, hset⟩ := h.starting phase hphase hstarting
    rw [hinitiation]
    exact ⟨hnone hsck, hset⟩
  · rw [hloop.transferFile, hinitiation]
    exact h.connecting

theorem Holds.of_spares (h : Holds ftp) (hspares : Spares ftp left) (hloop : Loops ftp left) :
    Holds left := by
  intro hopen hwaits hinitiation
  have hsame : left.state.initiation = ftp.state.initiation :=
    congrArg Terms.initiation hloop.terms
  have hpasv : left.state.pasv = ftp.state.pasv :=
    hspares.pasv.resolve_left (by simp [hopen])
  have hbefore : ftp.closed = false := by
    by_contra hclosed
    rw [hspares.closed (by simpa using hclosed)] at hopen
    cases hopen
  rw [hloop.transferFile] at hwaits
  obtain ⟨address, haddress⟩ := h hbefore hwaits (hsame ▸ hinitiation)
  exact ⟨address, hpasv.trans haddress⟩

theorem Prepared.one (h : Prepared ftp) {entry : Handled}
    (hhandler : ftp.handlerOf event = some entry) (hstarts : entry.cmd.startsTransfer = true) :
    ftp.transferFile = none := by
  by_contra hsome
  have hin := (accepts_of_handlerOf hhandler).notInTransfer (startsTransfer_eq_true hstarts).1
  rw [h.isInTransfer_iff.mp hsome] at hin
  cases hin

theorem Prepared.of_handler (h : Prepared ftp) {entry : Handled}
    (hhandler : ftp.handlerOf event = some entry) : Prepared entry.after := by
  obtain ⟨hstart, -⟩ := loops_handler hhandler
  have hbefore := h.of_loops hstart
  have haccepts := accepts_of_handlerOf hhandler
  have htouches : Touches entry.cmd entry.start entry.after :=
    touches_onCmd entry.env entry.param entry.cmd entry.start
  rcases htouches.transfer with ⟨hphase, hfile, htransfer⟩ | ⟨hstarts, hspawned, htransfer⟩
  · have hkept (hsome : entry.after.transferFile ≠ none) :
        entry.after.state.initiation = entry.start.state.initiation := by
      have hnot : entry.cmd.mustNotBeInTransfer = false := by
        by_contra hcmd
        have hin := haccepts.notInTransfer (by simpa using hcmd)
        rw [hphase, hstart.transferFile] at hsome
        rw [h.isInTransfer_iff.mp hsome] at hin
        cases hin
      refine (htouches.initiation ?_ ?_).1
      · intro hport
        rw [hport] at hnot
        cases hnot
      · intro hpasv
        rw [hpasv] at hnot
        cases hnot
    constructor
    · rw [hphase, htransfer, htouches.transferSck]
      exact hbefore.idle
    · rw [hphase, htransfer]
      exact hbefore.busy
    · rw [hphase, hfile]
      exact hbefore.spawned
    · intro phase hcase hstarting
      have hsome : entry.after.transferFile ≠ none := by
        rw [hcase]
        exact Option.some_ne_none _
      rw [htouches.transferSck, hkept hsome]
      exact hbefore.starting phase (hphase ▸ hcase) hstarting
    · intro hcase
      have hsome : entry.after.transferFile ≠ none := by
        rw [hcase]
        exact Option.some_ne_none _
      rw [hkept hsome]
      exact hbefore.connecting (hphase ▸ hcase)
  · have hidle := h.one hhandler hstarts
    obtain ⟨-, hneeds, hport, hpasv⟩ := startsTransfer_eq_true hstarts
    have hlaunches : Launches entry.cmd entry.start entry.after :=
      launches_onCmd entry.env entry.param entry.cmd entry.start
    have hfile : entry.after.currentFile.isSome = true := by
      rcases hlaunches with ⟨hsame, -⟩ | ⟨-, -, hfile⟩
      · rw [hspawned, hstart.transferFile, hidle] at hsame
        cases hsame
      · exact hfile
    have hset : entry.after.state.initiation ≠ .none := by
      have hhave := haccepts.pasvOrPost hneeds
      rw [FtpState.havePasvOrPost, bne_iff_ne] at hhave
      have hsame : entry.start.state.initiation = ftp.state.initiation :=
        congrArg Terms.initiation hstart.terms
      rwa [(htouches.initiation hport hpasv).1, hsame]
    refine ⟨?_, fun _ => htransfer, fun _ => hfile, ?_, ?_⟩
    · rw [hspawned]
      intro hnone
      cases hnone
    · intro phase _ _
      refine ⟨htouches.transferSck.trans ?_, hset⟩
      exact (hbefore.idle (hstart.transferFile.trans hidle)).2
    · rw [hspawned]
      intro hconnecting
      cases hconnecting

theorem Holds.of_handler (h : Holds ftp) (hprepared : Prepared ftp) {entry : Handled}
    (hhandler : ftp.handlerOf event = some entry) : Holds entry.after := by
  obtain ⟨hstart, -⟩ := loops_handler hhandler
  obtain ⟨line, -, hbefore, -, -⟩ := handlerOf_eq_some hhandler
  have htouches : Touches entry.cmd entry.start entry.after :=
    touches_onCmd entry.env entry.param entry.cmd entry.start
  intro hopen hwaits hinitiation
  refine listens_onCmd entry.env entry.param entry.cmd entry.start (fun hset => ?_) hinitiation
  have hstarted : Holds entry.start := by
    rw [Handled.start, hbefore]
    exact h
  refine hstarted (htouches.closed ▸ hopen) ?_ hset
  rcases htouches.transfer with ⟨hphase, -, -⟩ | ⟨hstarts, -, -⟩
  · rw [← hphase]
    exact hwaits
  · rw [hstart.transferFile, hprepared.one hhandler hstarts]
    intro phase hnone
    cases hnone

theorem transfer_of_plan (h : left.plan = ftp.plan) :
    left.state.transfer = ftp.state.transfer ∧ left.state.initiation = ftp.state.initiation
      ∧ left.state.pasv = ftp.state.pasv := by
  refine ⟨?_, ?_, ?_⟩
  · change left.plan.transfer = ftp.plan.transfer
    rw [h]
  · change left.plan.initiation = ftp.plan.initiation
    rw [h]
  · change left.plan.pasv = ftp.plan.pasv
    rw [h]

theorem Advance.of_isStarting {phase next : TransferPhase} (h : Advance ftp answer phase next)
    (hnext : IsStarting next) : phase = .spawned ∧ next = .announcing := by
  cases h with
  | announces => exact ⟨rfl, rfl⟩
  | enters _ _ hentered => exact absurd hnext hentered.not_isStarting
  | upgraded _ hentered => exact absurd hnext hentered.not_isStarting
  | moves _ hentered => exact absurd hnext hentered.not_isStarting
  | _ => rcases hnext with hcase | hcase <;> cases hcase

theorem Advance.of_connecting {phase : TransferPhase} (h : Advance ftp answer phase .connecting) :
    ftp.state.initiation = .port := by
  cases h with
  | connects _ hport => exact hport
  | enters _ _ hentered => exact hentered.elim
  | moves _ hentered => exact hentered.elim
  | upgraded _ hentered => exact hentered.elim

theorem Advance.of_accepting {phase : TransferPhase} (h : Advance ftp answer phase .accepting) :
    IsStarting phase ∧ ftp.state.initiation ≠ .port ∧ ftp.closed = false := by
  cases h with
  | accepts hphase hport hclosed => exact ⟨hphase, hport, hclosed⟩
  | enters _ _ hentered => exact hentered.elim
  | moves _ hentered => exact hentered.elim
  | upgraded _ hentered => exact hentered.elim

theorem Prepared.of_turn (h : Prepared ftp) {phase : TransferPhase}
    (hphase : ftp.transferFile = some phase) (hturn : Turn ftp answer phase left) :
    Prepared left := by
  cases hturn with
  | @waits next hnext hadvance hplan hsck =>
      obtain ⟨htransfer, hinitiation, -⟩ := transfer_of_plan hplan
      constructor
      · rw [hnext]
        exact nofun
      · intro _
        rw [htransfer]
        apply h.busy
        rw [hphase]
        exact nofun
      · intro hspawned
        obtain rfl := Option.some.inj (hnext.symm.trans hspawned)
        cases (hadvance.of_isStarting (.inl rfl)).2
      · intro last hlast hstarting
        obtain rfl := Option.some.inj (hnext.symm.trans hlast)
        obtain ⟨rfl, rfl⟩ := hadvance.of_isStarting hstarting
        rw [hsck (.inl rfl), hinitiation]
        exact h.starting _ hphase (.inl rfl)
      · intro hconnecting
        obtain rfl := Option.some.inj (hnext.symm.trans hconnecting)
        rw [hinitiation]
        exact hadvance.of_connecting
  | ends hends hsck =>
      have hidle : left.state.transfer = .none := by
        change left.plan.transfer = .none
        rw [hends.plan]
        rfl
      constructor
      · refine fun _ => ⟨hidle, ?_⟩
        rcases hsck with hnone | ⟨hstarting, hsame⟩
        · exact hnone
        · exact hsame.trans (h.starting phase hphase hstarting).1
      · exact absurd hends.transferFile
      all_goals
        rw [hends.transferFile]
        exact nofun

theorem resume_to_announcing (hphase : ftp.transferFile = some .spawned)
    (hnext : (after (resume env answer) ftp).transferFile = some .announcing) :
    after (resume env answer) ftp = ftp.replying { code := .openingConnection } .announcing := by
  rw [resume_spawned hphase] at hnext ⊢
  split at hnext
  · rw [if_pos ‹_›]
  · rw [after_announced] at hnext
    split at hnext
    · cases hnext
    · split at hnext <;> cases hnext

theorem Holds.of_resume (h : Holds ftp) {phase : TransferPhase}
    (hphase : ftp.transferFile = some phase) : Holds (after (resume env answer) ftp) := by
  intro hopen hwaits hinitiation
  have hturn : Turn ftp answer phase (after (resume env answer) ftp) := turn_resume env hphase
  generalize hleft : after (resume env answer) ftp = left at *
  cases hturn with
  | @waits next hnext hadvance hplan hsck =>
      obtain ⟨rfl, rfl⟩ := hadvance.of_isStarting (hwaits next hnext)
      rw [← hleft] at hnext
      rw [← hleft, resume_to_announcing hphase hnext] at hopen hinitiation ⊢
      refine h hopen (fun phase hcase => ?_) hinitiation
      exact .inl (Option.some.inj (hcase.symm.trans hphase))
  | ends hends hsck =>
      have hnone : left.state.initiation = .none := by
        change left.plan.initiation = .none
        rw [hends.plan]
        rfl
      rw [hnone] at hinitiation
      cases hinitiation

/-- A handler leaves the coroutine alone unless none is alive and it starts one. -/
theorem Prepared.phase_of_handler (h : Prepared ftp) {entry : Handled}
    (hhandler : ftp.handlerOf event = some entry) :
    entry.after.transferFile = ftp.transferFile
      ∨ entry.cmd.startsTransfer = true ∧ ftp.transferFile = none
        ∧ entry.after.transferFile = some .spawned := by
  have htouches : Touches entry.cmd entry.start entry.after :=
    touches_onCmd entry.env entry.param entry.cmd entry.start
  rcases htouches.transfer with ⟨hphase, -, -⟩ | ⟨hstarts, hspawned, -⟩
  · exact .inl (hphase.trans (loops_handler hhandler).1.transferFile)
  · exact .inr ⟨hstarts, h.one hhandler hstarts, hspawned⟩

theorem Prepared.step (h : Prepared ftp) (event : Event) : Prepared (ftp.step event) := by
  cases hhandler : ftp.handlerOf event with
  | some entry => exact (h.of_handler hhandler).of_loops (loops_handler hhandler).2
  | none =>
      rcases loops_idle hhandler with hloop | ⟨env, answer, rfl, hstep⟩
      · exact h.of_loops hloop
      · rw [hstep]
        cases hphase : ftp.transferFile with
        | none => rwa [resume_of_none hphase]
        | some phase => exact h.of_turn hphase (turn_resume env hphase)

/-- A handler that spares the acceptor, and what `OnCommand` does behind it. -/
theorem Holds.handler (h : Holds ftp) (hprepared : Prepared ftp) {entry : Handled}
    (hhandler : ftp.handlerOf event = some entry) (hspares : ftp.sparesAcceptor event = true) :
    Holds (ftp.step event) := by
  have hphase := hprepared.phase_of_handler hhandler
  have hloop : Loops entry.after (ftp.step event) := (loops_handler hhandler).2
  by_cases haccepting : ftp.transferFile = some .accepting
  · rcases hphase with hsame | ⟨-, hidle, -⟩
    · intro _ hwaits
      rcases hwaits .accepting (by rw [hloop.transferFile, hsame, haccepting]) with hcase | hcase
      · cases hcase
      · cases hcase
    · rw [haccepting] at hidle
      cases hidle
  · refine (h.of_handler hprepared hhandler).of_spares ?_ hloop
    have htouches : Touches entry.cmd entry.start entry.after :=
      touches_onCmd entry.env entry.param entry.cmd entry.start
    have hbefore : entry.start.state = ftp.state ∧ entry.start.abortTransfer = ftp.abortTransfer := by
      obtain ⟨-, -, hbefore, -, -⟩ := handlerOf_eq_some hhandler
      rw [Handled.start, hbefore]
      exact ⟨rfl, rfl⟩
    rw [step_of_handlerOf hhandler, after_handle]
    cases hresult : entry.result with
    | error e left =>
        rw [Handled.after, after_of_error hresult]
        exact spares_controlReply _ _ _ left
    | ok reply left =>
        rw [Handled.after, after_of_ok hresult] at htouches ⊢
        refine spares_handled entry.cmd reply fun hreply hpending => ?_
        rw [htouches.abortTransfer, hbefore.2]
        intro hcallback
        simp only [sparesAcceptor, hhandler, hcallback, bne_self_eq_false, Bool.false_or,
          Bool.or_eq_true, beq_iff_eq, haccepting, false_or, Bool.and_eq_true, bne_iff_ne,
          Bool.not_eq_true'] at hspares
        obtain ⟨habor, hstarting⟩ := hspares
        rw [htouches.abortPending habor, hbefore.1] at hpending
        rw [hpending, Bool.and_true] at hstarting
        have hcompletes := completing_onCmd entry.env entry.param hstarting habor _ _ _ hresult
        rw [hreply] at hcompletes
        exact hcompletes

theorem Holds.step (h : Holds ftp) (hprepared : Prepared ftp)
    (hspares : ftp.sparesAcceptor event = true) : Holds (ftp.step event) := by
  cases hhandler : ftp.handlerOf event with
  | some entry => exact h.handler hprepared hhandler hspares
  | none =>
      by_cases htransfer : ∃ env answer, event = .transfer env answer
      · obtain ⟨env, answer, rfl⟩ := htransfer
        change Holds (after (resume env answer) ftp)
        cases hphase : ftp.transferFile with
        | none => rwa [resume_of_none hphase]
        | some phase => exact h.of_resume hphase
      · have hspared : Spares ftp (ftp.step event) :=
          spares_idle hhandler fun env answer hevent => htransfer ⟨env, answer, hevent⟩
        refine h.of_spares hspared ((loops_idle hhandler).resolve_right ?_)
        rintro ⟨env, answer, hevent, -⟩
        exact htransfer ⟨env, answer, hevent⟩

/-- A phase that a step brings about and that is not the first one follows by a turn. -/
theorem Prepared.turned (h : Prepared ftp) {next : TransferPhase}
    (hbefore : ftp.transferFile ≠ some next) (hnext : (ftp.step event).transferFile = some next)
    (hspawned : next ≠ .spawned) :
    ∃ phase answer, ftp.transferFile = some phase ∧ Advance ftp answer phase next := by
  cases hhandler : ftp.handlerOf event with
  | some entry =>
      rw [(loops_handler hhandler).2.transferFile] at hnext
      rcases h.phase_of_handler hhandler with hsame | ⟨-, -, hstarted⟩
      · exact absurd (hsame.symm.trans hnext) hbefore
      · exact absurd (Option.some.inj (hnext.symm.trans hstarted)) hspawned
  | none =>
      rcases loops_idle hhandler with hloop | ⟨env, answer, rfl, hstep⟩
      · exact absurd (hloop.transferFile.symm.trans hnext) hbefore
      · rw [hstep] at hnext
        cases hphase : ftp.transferFile with
        | none =>
            rw [resume_of_none hphase, hphase] at hnext
            cases hnext
        | some phase =>
            have hturn : Turn ftp answer phase (after (resume env answer) ftp) :=
              turn_resume env hphase
            cases hturn with
            | waits hlast hadvance =>
                obtain rfl := Option.some.inj (hlast.symm.trans hnext)
                exact ⟨phase, answer, rfl, hadvance⟩
            | ends hends =>
                rw [hends.transferFile] at hnext
                cases hnext

theorem findsSetup_of_holds (h : Prepared ftp) (hholds : Holds ftp) : FindsSetup ftp event where
  one _ hhandler hstarts := h.one hhandler hstarts
  others entry hhandler hstarts := by
    refine (h.phase_of_handler hhandler).resolve_right fun hstarted => ?_
    rw [hstarts] at hstarted
    cases hstarted.1
  starts hspawned := ⟨h.spawned hspawned, (h.starting _ hspawned (.inl rfl)).1⟩
  passive hbefore hnext := by
    obtain ⟨phase, answer, hphase, hadvance⟩ := h.turned hbefore hnext nofun
    obtain ⟨hstarting, hport, hopen⟩ := hadvance.of_accepting
    refine hholds hopen (fun last hlast => ?_) ?_
    · obtain rfl := Option.some.inj (hphase.symm.trans hlast)
      exact hstarting
    · have hset := (h.starting phase hphase hstarting).2
      cases hinitiation : ftp.state.initiation with
      | none => exact absurd hinitiation hset
      | port => exact absurd hinitiation hport
      | pasv => rfl
  port hconnecting := by
    by_cases hbefore : ftp.transferFile = some .connecting
    · exact h.connecting hbefore
    · have hnext := hconnecting.resolve_right hbefore
      obtain ⟨phase, answer, hphase, hadvance⟩ := h.turned hbefore hnext nofun
      exact hadvance.of_connecting

end Invariant

end FtpSession

section Results

variable (permissions : Permissions) (disk : Disk) (segmentSize : Nat)

theorem prepared_fresh : (fresh permissions disk segmentSize).Prepared where
  idle _ := ⟨rfl, rfl⟩
  busy h := absurd rfl h
  spawned := nofun
  starting _ := nofun
  connecting := nofun

/-- **Transfers find their set-up.** As long as no callback of an earlier transfer is called, no run
makes a transfer use a set-up it does not have. -/
theorem findsSetup_of_sparesAcceptor {events : List Event}
    (h : Machine.Along step (fun ftp event => ftp.sparesAcceptor event = true)
      (fresh permissions disk segmentSize) events) :
    Machine.Along step FindsSetup (fresh permissions disk segmentSize) events := by
  refine h.imp step (fun ftp => Prepared ftp ∧ Holds ftp) ?_ ?_ ?_
  · intro ftp event hspares hinv
    exact ⟨hinv.1.step event, hinv.2.step hinv.1 hspares⟩
  · intro ftp event _ hinv
    exact findsSetup_of_holds hinv.1 hinv.2
  · refine ⟨prepared_fresh permissions disk segmentSize, ?_⟩
    intro _ _ hpasv
    cases hpasv

def passiveRetr : List Event :=
  let env : Env := { joeEnv with listen := some {} }
  [.start env, .written env true] ++ exchange "USER joe"
    ++ [.request env (bytes "PASV"), .written env true, .request env (bytes "RETR a")]
    ++ turns [.done, .done, .done]

theorem findsSetup_of_sparesAcceptor_retr :
    Machine.Along step FindsSetup (fresh oneMount (oneFileDisk [7, 8]) 4096) passiveRetr :=
  findsSetup_of_sparesAcceptor oneMount (oneFileDisk [7, 8]) 4096 (by decide +kernel)

/-- A client that does not connect, names the port again and gives ABOR before its RETR. -/
def abortedPassive : List Event :=
  let env : Env := { joeEnv with listen := some {} }
  unaccepted ++ [.request env (bytes "PASV"), .written env true, .request env (bytes "ABOR"),
    .request env (bytes "RETR a")] ++ turns [.done]

/-- ABOR closes the acceptor of the second PASV, and the transfer accepts on it. -/
theorem not_findsSetup_aborted :
    let ftp := (fresh oneMount (oneFileDisk [7, 8]) 4096).run abortedPassive
    let event : Event := .transfer joeEnv .done
    ftp.transferFile = some .announcing ∧ (ftp.step event).transferFile = some .accepting
      ∧ ftp.state.pasv.map PasvAcceptor.listening = some false ∧ ¬ ftp.FindsSetup event := by
  intro ftp event
  have hacceptor : ftp.state.pasv.map PasvAcceptor.listening = some false := by decide +kernel
  have hphase : ftp.transferFile = some .announcing := by decide +kernel
  have hnext : (ftp.step event).transferFile = some .accepting := by decide +kernel
  refine ⟨hphase, hnext, hacceptor, fun hfinds => ?_⟩
  obtain ⟨address, hlistens⟩ := hfinds.passive (by rw [hphase]; exact nofun) hnext
  rw [hlistens] at hacceptor
  cases hacceptor

end Results

end Wfde
