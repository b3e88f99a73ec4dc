import Wfde.Proof.AtRest
import Wfde.Proof.TlsUpgrade

/-!
# Replies

A request line is answered by its handler, by the transfer that the handler starts, or by the
transfer that it aborts. What is still owed is counted against what has been sent.
-/

namespace Wfde

open Effect FtpSession

section Handlers

open Handler

/-- A handler has replied, and the reply completes the request. -/
def Completing : Option FtpReply → Prop
  | some reply => reply.completes = true
  | none => False

/-- A predicate that every reply satisfies which completes a request and lets the session live. -/
def Allows (p : Option FtpReply → Prop) : Prop :=
  ∀ code message multiLine, 200 ≤ code.resolve.1 → p (some { code, message, multiLine })

namespace Allows

variable {p : Option FtpReply → Prop} (hp : Allows p)
include hp

theorem answer {code : FtpReplyCodes} {message : Bytes} (h : 200 ≤ code.resolve.1) :
    Yields p (answer code message) := yields_pure (hp code message false h)

theorem verbose {code : FtpReplyCodes} {message : Bytes} (h : 200 ≤ code.resolve.1) :
    Yields p (verbose code message) := yields_pure (hp code message true h)

theorem tryAction {body : Handler} (hbody : Yields p body) (catches : List (Exception × Bytes)) :
    Yields p (tryAction catches body) :=
  yields_tryCatch hbody fun _ => hp.answer (by decide)

theorem tryConnect {body : Handler} (hbody : Yields p body) : Yields p (tryConnect body) := by
  refine yields_tryCatch hbody fun e => hp.answer ?_
  by_cases hconnect : e = .failedToConnect
  · rw [if_pos hconnect]
    decide
  · rw [if_neg hconnect]
    decide

theorem tryOrFail {body : Handler} (hbody : Yields p body) : Yields p (tryOrFail body) :=
  yields_tryCatch hbody fun _ => hp.answer (by decide)

theorem fileAction (clauses : List (Exception × Bytes)) (body : FtpM Unit) :
    Yields p (fileAction clauses body) := by
  apply hp.tryAction
  exact yields_bind (yields_any _) fun _ _ => hp.answer (by decide)

theorem changeDirectory (path : Bytes) : Yields p (changeDirectory path) := by
  apply hp.tryAction
  refine yields_bind (yields_any _) fun _ _ => ?_
  exact yields_bind (yields_any _) fun _ _ => hp.answer (by decide)

theorem tryLogin (env : Env) (pwd : Bytes) {refused : FtpReplyCodes}
    (hrefused : 200 ≤ refused.resolve.1) : Yields p (tryLogin env pwd refused) := by
  refine yields_bind (yields_any _) fun _ _ => yields_bind (yields_any _) fun _ _ => ?_
  refine yields_ite (yields_bind (yields_any _) fun _ _ => ?_) (hp.answer hrefused)
  exact hp.answer (by decide)

theorem help (param : Bytes) : Yields p (FtpCmdHelp.onCmd param) := by
  refine yields_ite (hp.verbose (by decide)) ?_
  dsimp only
  split
  · exact hp.answer (by decide)
  · exact hp.answer (by decide)

theorem opts (param : Bytes) : Yields p (FtpCmdOpts.onCmd param) := by
  refine yields_ite ?_ (hp.answer (by decide))
  refine yields_bind (yields_any _) fun _ _ => ?_
  exact yields_bind (yields_any _) fun _ _ => hp.answer (by decide)

theorem port (param : Bytes) : Yields p (FtpCmdPort.onCmd param) := by
  unfold FtpCmdPort.onCmd
  dsimp only
  split
  · exact fun _ _ _ hrun => absurd hrun throw_eq_ok
  · exact yields_bind (yields_any _) fun _ _ => hp.answer (by decide)

theorem pasv (env : Env) : Yields p (FtpCmdPasv.onCmd env) := by
  refine yields_bind (yields_any _) fun _ _ => yields_bind (yields_any _) fun state _ => ?_
  split
  · exact yields_bind (yields_any _) fun _ _ => hp.answer (by decide)
  · exact fun _ _ _ hrun => absurd hrun throw_eq_ok

theorem rest (param : Bytes) : Yields p (FtpCmdRest.onCmd param) := by
  refine yields_bind (yields_any _) fun _ _ => ?_
  split
  · exact hp.answer (by decide)
  · refine yields_bind (yields_any _) fun state _ => yields_ite (hp.answer (by decide)) ?_
    exact yields_bind (yields_any _) fun _ _ => hp.answer (by decide)

theorem allo (param : Bytes) : Yields p (FtpCmdAllo.onCmd param) := by
  unfold FtpCmdAllo.onCmd
  split
  · exact hp.answer (by decide)
  · exact yields_bind (yields_any _) fun _ _ => hp.answer (by decide)

theorem size (param : Bytes) : Yields p (FtpCmdSize.onCmd param) := by
  refine yields_bind (yields_any _) fun _ _ => yields_bind (yields_any _) fun _ _ => ?_
  refine yields_ite (hp.answer (by decide)) (hp.tryOrFail ?_)
  exact yields_bind (yields_any _) fun _ _ => hp.answer (by decide)

theorem mdtm (env : Env) (param : Bytes) : Yields p (FtpCmdMdtm.onCmd env param) := by
  refine yields_bind (yields_any _) fun _ _ => yields_bind (yields_any _) fun _ _ => ?_
  apply hp.tryOrFail
  refine yields_bind (yields_any _) fun found _ => yields_ite ?_ (hp.answer (by decide))
  exact yields_bind (yields_any _) fun _ _ => hp.answer (by decide)

theorem rnfr (param : Bytes) : Yields p (FtpCmdRnfr.onCmd param) := by
  apply hp.tryAction
  refine yields_bind (yields_any _) fun path _ => yields_ite (hp.answer (by decide)) ?_
  refine yields_bind (yields_any _) fun found _ => yields_ite (hp.answer (by decide)) ?_
  exact yields_bind (yields_any _) fun _ _ => hp.answer (by decide)

theorem mlst (env : Env) (param : Bytes) : Yields p (FtpCmdMlst.onCmd env param) := by
  apply hp.tryConnect
  refine yields_bind (yields_any _) fun path _ => yields_bind (yields_any _) fun found _ => ?_
  refine yields_bind (yields_any _) fun _ _ => yields_bind (yields_any _) fun _ _ => ?_
  exact yields_bind (yields_any _) fun _ _ => hp.verbose (by decide)

theorem stat (env : Env) (param : Bytes) : Yields p (FtpCmdStat.onCmd env param) := by
  refine yields_ite (yields_bind (yields_any _) fun _ _ => hp.answer (by decide)) ?_
  refine yields_bind (yields_any _) fun args _ => hp.tryOrFail ?_
  refine yields_bind (yields_any _) fun path _ => yields_bind (yields_any _) fun _ _ => ?_
  exact hp.verbose (by decide)

theorem auth : Yields p FtpCmdAuth.onCmd := by
  refine yields_bind (yields_any _) fun state _ => yields_ite (hp.answer (by decide)) ?_
  exact yields_bind (yields_any _) fun _ _ => hp.answer (by decide)

theorem openAndTransfer (hnone : p none) (path : Bytes) (refuse : FtpState → Bool)
    (refusal : Bytes) (operation : FileOperation) :
    Yields p (openAndTransfer path refuse refusal operation) := by
  refine yields_bind (yields_any _) fun _ _ => yields_bind (yields_any _) fun _ _ => ?_
  refine yields_ite (hp.answer (by decide)) (hp.tryConnect ?_)
  refine yields_bind (yields_any _) fun file _ => ?_
  exact yields_bind (yields_any _) fun _ _ => yields_pure hnone

theorem listAndTransfer (hnone : p none) (env : Env) (format : ListFormat) (vpath : Bytes)
    (prepare : FtpState → FtpState) : Yields p (listAndTransfer env format vpath prepare) := by
  apply hp.tryConnect
  refine yields_bind (yields_any _) fun path _ => yields_bind (yields_any _) fun buffers _ => ?_
  refine yields_bind (yields_any _) fun _ _ => yields_bind (yields_any _) fun _ _ => ?_
  exact yields_pure hnone

/-- **Replies of handlers.** Only QUIT ends the session, and only a handler that starts or aborts a
transfer returns without a reply. -/
theorem onCmd (env : Env) (param : Bytes) {cmd : FtpCmd} (hquit : cmd ≠ .quit)
    (hnone : cmd.startsTransfer = true ∨ cmd = .abor → p none) :
    Yields p (cmd.onCmd env param) := by
  cases cmd with
  | quit => exact absurd rfl hquit
  | abor => exact yields_bind (yields_any _) fun _ _ => yields_pure (hnone (.inr rfl))
  | help => exact hp.help param
  | opts => exact hp.opts param
  | syst | noop | pbsz => exact hp.answer (by decide)
  | feat => exact yields_bind (yields_any _) fun _ _ => hp.verbose (by decide)
  | pwd | type | prot => exact yields_bind (yields_any _) fun _ _ => hp.answer (by decide)
  | user => exact yields_bind (yields_any _) fun _ _ => hp.tryLogin env _ (by decide)
  | pass => exact hp.tryLogin env param (by decide)
  | port => exact hp.port param
  | pasv => exact hp.pasv env
  | rest => exact hp.rest param
  | size => exact hp.size param
  | mdtm => exact hp.mdtm env param
  | allo => exact hp.allo param
  | cwd | cdup => exact hp.changeDirectory _
  | dele | mkd | rmd | rnto => exact hp.fileAction _ _
  | rnfr => exact hp.rnfr param
  | mlst => exact hp.mlst env param
  | stat => exact hp.stat env param
  | auth => exact hp.auth
  | retr | stor | stou | appe => exact hp.openAndTransfer (hnone (.inl rfl)) _ _ _ _
  | list =>
      exact yields_bind (yields_any _) fun _ _ => hp.listAndTransfer (hnone (.inl rfl)) env _ _ _
  | nlst | mlsd => exact hp.listAndTransfer (hnone (.inl rfl)) env _ _ _

end Allows

/-- A handler that neither starts nor aborts a transfer replies, unless it throws. -/
theorem completing_onCmd (env : Env) (param : Bytes) {cmd : FtpCmd}
    (hstarts : cmd.startsTransfer = false) (habor : cmd ≠ .abor) :
    Yields Completing (cmd.onCmd env param) := by
  have hallows : Allows Completing := fun _ _ _ hcode => decide_eq_true hcode
  by_cases hquit : cmd = .quit
  · subst hquit
    exact yields_pure rfl
  · refine hallows.onCmd env param hquit ?_
    rintro (hcase | hcase)
    · rw [hstarts] at hcase
      cases hcase
    · exact absurd hcase habor

structure SamePhase (before after : FtpSession) : Prop where
  transferFile : after.transferFile = before.transferFile
  transfer : after.state.transfer = before.state.transfer

instance : Std.Refl SamePhase := ⟨fun _ => ⟨rfl, rfl⟩⟩

instance : IsTrans FtpSession SamePhase where
  trans _ _ _ hab hbc :=
    ⟨hbc.transferFile.trans hab.transferFile, hbc.transfer.trans hab.transfer⟩

theorem samePhase_frame {cmd : FtpCmd} (hcmd : cmd.startsTransfer = false) :
    Frame SamePhase cmd where
  calls _ _ := ⟨rfl, rfl⟩
  state ftp state hupdates := by cases hupdates <;> exact ⟨rfl, rfl⟩
  disk _ _ _ := ⟨rfl, rfl⟩
  login _ _ _ := ⟨rfl, rfl⟩
  cwd _ _ _ := ⟨rfl, rfl⟩
  start hstarts := by
    rw [hcmd] at hstarts
    cases hstarts

/-- What a handler that returns has done about its request. -/
inductive Answered (ftp : FtpSession) : Option FtpReply → FtpSession → Prop
  | replies {reply left} (hreply : reply.completes = true) (hphase : SamePhase ftp left) :
      Answered ftp (some reply) left
  | starts {left} (hphase : left.transferFile = some .spawned) (hbusy : left.state.transfer ≠ .none) :
      Answered ftp none left

variable {ftp left : FtpSession} {reply : Option FtpReply}

theorem Answered.of_samePhase {last : FtpSession} (hsame : SamePhase ftp left)
    (h : Answered left reply last) : Answered ftp reply last := by
  cases h with
  | replies hreply hphase => exact .replies hreply (IsTrans.trans _ _ _ hsame hphase)
  | starts hphase hbusy => exact .starts hphase hbusy

/-- A `try` block that starts a transfer as the last thing it does. -/
def Begins (body : Handler) : Prop :=
  ∀ ftp, (∃ left, body.run ftp = .ok none left ∧ left.transferFile = some .spawned
      ∧ left.state.transfer ≠ .none)
    ∨ ∃ e left, body.run ftp = .error e left ∧ SamePhase ftp left

theorem begins_startTransfer (file : RawFile) : Begins (do
    startTransfer file
    return none) := by
  refine fun ftp => .inl ⟨ftp.started file, ?_, rfl, ?_⟩
  · exact bind_eq_ok.mpr ⟨(), _, startTransfer_run file ftp, rfl⟩
  · cases hread : file.getOperation <;> simp [started, hread]

theorem begins_bind {α : Type} {x : FtpM α} {f : α → Handler} (hx : Keeps SamePhase x)
    (hf : ∀ a, Begins (f a)) : Begins (x >>= f) := by
  intro ftp
  have hphase := hx ftp
  rw [EStateM.run_bind]
  cases hrun : x.run ftp with
  | error e left =>
      rw [after_of_error hrun] at hphase
      exact .inr ⟨e, left, rfl, hphase⟩
  | ok a left =>
      rw [after_of_ok hrun] at hphase
      rcases hf a left with hstarted | ⟨e, last, hlast, hrest⟩
      · exact .inl hstarted
      · exact .inr ⟨e, last, hlast, IsTrans.trans _ _ _ hphase hrest⟩

theorem answered_tryConnect {body : Handler} (h : Begins body)
    (hrun : (tryConnect body).run ftp = .ok reply left) : Answered ftp reply left := by
  rcases h ftp with ⟨last, hbody, hspawned, hbusy⟩ | ⟨e, last, hbody, hphase⟩
  · rw [tryConnect, tryCatch_of_ok hbody] at hrun
    cases hrun
    exact .starts hspawned hbusy
  · rw [tryConnect, tryCatch_of_error hbody] at hrun
    obtain ⟨rfl, rfl⟩ := pure_eq_ok.mp hrun
    refine .replies ?_ hphase
    by_cases hconnect : e = .failedToConnect
    · rw [if_pos hconnect]
      rfl
    · rw [if_neg hconnect]
      rfl

theorem answered_openAndTransfer {path : Bytes} {refuse : FtpState → Bool} {refusal : Bytes}
    {operation : FileOperation}
    (hrun : (openAndTransfer path refuse refusal operation).run ftp = .ok reply left) :
    Answered ftp reply left := by
  have hframe : Frame SamePhase .dele := samePhase_frame rfl
  have hopen := hframe.openFile rfl path operation
  let asked : FtpSession := { ftp with state := { ftp.state with requestedPath := path } }
  replace hrun : (if refuse asked.state then answer .actionNotTaken refusal
      else tryConnect do
        let file ← openFile path operation
        startTransfer file
        return none).run asked = .ok reply left := hrun
  split at hrun
  · obtain ⟨rfl, rfl⟩ := pure_eq_ok.mp hrun
    exact .replies rfl ⟨rfl, rfl⟩
  · have hasked : SamePhase ftp asked := ⟨rfl, rfl⟩
    exact (answered_tryConnect (begins_bind hopen begins_startTransfer) hrun).of_samePhase hasked

theorem answered_listAndTransfer {env : Env} {format : ListFormat} {vpath : Bytes}
    {prepare : FtpState → FtpState}
    (hrun : (listAndTransfer env format vpath prepare).run ftp = .ok reply left)
    (hprepare : ∀ state, (prepare state).transfer = state.transfer) :
    Answered ftp reply left := by
  have hframe : Frame SamePhase .dele := samePhase_frame rfl
  refine answered_tryConnect (begins_bind (hframe.getPathForListing vpath) fun path => ?_) hrun
  refine begins_bind (hframe.listDirectory env format path) fun buffers => ?_
  exact begins_bind (keeps_modify fun ftp => ⟨rfl, hprepare ftp.state⟩) fun _ => begins_startTransfer _

/-- **What a handler does about its request.** ABOR apart, it replies or starts a transfer. -/
theorem answered_onCmd {env : Env} {param : Bytes} {cmd : FtpCmd} (habor : cmd ≠ .abor)
    (hrun : (cmd.onCmd env param).run ftp = .ok reply left) : Answered ftp reply left := by
  cases hstarts : cmd.startsTransfer with
  | false =>
      have hphase := (samePhase_frame hstarts).onCmd env param ftp
      have hcompletes := completing_onCmd env param hstarts habor ftp reply left hrun
      rw [after_of_ok hrun] at hphase
      cases reply with
      | some reply => exact .replies hcompletes hphase
      | none => cases hcompletes
  | true =>
      cases cmd with
      | retr | stor | stou | appe => exact answered_openAndTransfer hrun
      | list =>
          obtain ⟨args, listed, hargs, hlist⟩ := bind_eq_ok.mp hrun
          have hframe : Frame SamePhase .stat := samePhase_frame rfl
          have hphase := hframe.parseListArgs (.inr rfl) param ftp
          rw [after_of_ok hargs] at hphase
          exact (answered_listAndTransfer hlist fun _ => rfl).of_samePhase hphase
      | nlst | mlsd => exact answered_listAndTransfer hrun fun _ => rfl
      | _ => cases hstarts

end Handlers

namespace FtpSession

section Loop

variable {ftp : FtpSession} {env : Env} {reply : FtpReply} {next : AfterReply}

theorem nextCommand_of_live (h : Live (after (nextCommand env) ftp)) :
    after (nextCommand env) ftp = { ftp with control := .fetching } ∧ env.expired = false
      ∧ ftp.closePending = false ∧ ftp.canReply = true := by
  unfold nextCommand at h ⊢
  rw [after_bind_of_ok (EStateM.run_get ftp)] at h ⊢
  by_cases hgo : (!ftp.replyFailed && !ftp.closePending && !env.expired && ftp.socketOpen) = true
  · rw [if_pos hgo]
    simp only [Bool.and_eq_true, Bool.not_eq_true'] at hgo
    obtain ⟨⟨⟨hfailed, hpending⟩, hexpired⟩, hopen⟩ := hgo
    exact ⟨rfl, hexpired, hpending, by simp [canReply, hfailed, hopen]⟩
  · rw [if_neg hgo] at h
    simp [Live, control_leaveLoop] at h

theorem afterReply_of_live (h : Live (after (afterReply env next) ftp)) :
    after (afterReply env next) ftp = { ftp with control := .fetching } ∧ next = .loop
      ∧ ftp.closePending = false ∧ ftp.canReply = true := by
  cases next with
  | loop =>
      obtain ⟨heq, -, hpending, hcan⟩ := nextCommand_of_live h
      exact ⟨heq, rfl, hpending, hcan⟩
  | endSession =>
      obtain ⟨-, -, hpending, -⟩ := nextCommand_of_live h
      cases hpending
  | closePending =>
      obtain ⟨-, -, hpending, -⟩ := nextCommand_of_live h
      cases hpending
  | leave =>
      change Live (after (leaveLoop env) ftp) at h
      simp [Live, control_leaveLoop] at h

theorem controlReply_of_live (h : Live (after (controlReply env reply next) ftp)) :
    after (controlReply env reply next) ftp
        = { ftp with replies := ftp.replies ++ [reply], control := .replying .loop }
      ∧ next = .loop ∧ ftp.canReply = true := by
  obtain rfl : next = .loop := by
    by_contra hnext
    exact not_live_controlReply hnext h
  unfold controlReply at h ⊢
  rw [after_bind_of_ok (EStateM.run_get ftp)] at h ⊢
  by_cases hcan : ftp.canReply = true
  · rw [if_pos hcan]
    exact ⟨rfl, rfl, hcan⟩
  · rw [if_neg hcan] at h
    exact absurd (afterReply_of_live h).2.2.2 hcan

/-- What the requests and the replies are counted by. -/
structure Ledger where
  replies : List FtpReply
  transferFile : Option TransferPhase
  transfer : Transfer
  abortPending : Bool
  closed : Bool
  closePending : Bool
  canReply : Bool

def ledger (ftp : FtpSession) : Ledger where
  replies := ftp.replies
  transferFile := ftp.transferFile
  transfer := ftp.state.transfer
  abortPending := ftp.state.abortPending
  closed := ftp.closed
  closePending := ftp.closePending
  canReply := ftp.canReply

theorem ledger_callAbort (ftp : FtpSession) : (after callAbort ftp).ledger = ftp.ledger := by
  unfold callAbort
  rw [after_bind_of_ok (EStateM.run_get ftp)]
  cases ftp.abortTransfer with
  | none => rfl
  | some action =>
      cases action with
      | acceptor => rfl
      | transferSocket => rfl

theorem returns_callAbort : Returns callAbort := by
  refine returns_bind returns_get fun ftp => ?_
  split
  · exact returns_pure _
  · exact returns_modify _
  · exact returns_modify _

theorem handled_none_of_live {cmd : FtpCmd} (h : Live (after (handled env cmd none) ftp)) :
    (after (handled env cmd none) ftp).ledger = ftp.ledger
      ∧ (after (handled env cmd none) ftp).control = .fetching ∧ ftp.canReply = true := by
  let named : FtpSession := { ftp with prevCmdName := some cmd }
  have hhandled : after (handled env cmd none) ftp
      = if ftp.state.abortPending then
          after (nextCommand env) { after callAbort named with abortTransfer := none }
        else after (nextCommand env) named := by
    unfold handled
    rw [after_bind_of_returns (returns_modify _)]
    change after _ named = _
    rw [after_bind_of_ok (show getState.run named = .ok named.state named from rfl)]
    change after (if ftp.state.abortPending then _ else _) named = _
    split
    · rw [after_bind_of_returns returns_callAbort, after_bind_of_returns (returns_modify _)]
      rfl
    · rfl
  rw [hhandled] at h ⊢
  split at h
  · have hledger : { after callAbort named with abortTransfer := none }.ledger = ftp.ledger :=
      ledger_callAbort named
    rename_i hpending
    rw [if_pos hpending]
    obtain ⟨heq, -, -, hcan⟩ := nextCommand_of_live h
    rw [heq]
    exact ⟨hledger, rfl, (congrArg Ledger.canReply hledger).symm.trans hcan⟩
  · rename_i hpending
    rw [if_neg hpending]
    obtain ⟨heq, -, -, hcan⟩ := nextCommand_of_live h
    rw [heq]
    exact ⟨rfl, rfl, hcan⟩

end Loop

section Books

/-- Whether the reply that completes the request of the transfer has still to be sent. -/
def owes : TransferPhase → Bool
  | .notifying | .ending _ => false
  | _ => true

/-- The replies since the greeting that complete a request. -/
def completed (ftp : FtpSession) : Nat := ftp.replies.tail.countP FtpReply.completes

/-- The transfer has still to complete its request. -/
structure Owing (requests : Nat) (ftp : FtpSession) : Prop where
  greeted : ftp.replies ≠ []
  balance : ftp.completed + 1 + ftp.state.abortPending.toNat = requests
  busy : ftp.state.transfer ≠ .none

/-- A request is completed, or the transfer or the abort that it has led to owes a reply. -/
structure Books (requests : Nat) (ftp : FtpSession) : Prop where
  greeted : ftp.replies ≠ []
  balance : ftp.completed + (ftp.transferFile.any owes).toNat + ftp.state.abortPending.toNat
    = requests
  idle : ftp.transferFile = none → ftp.state.transfer = .none ∧ ftp.state.abortPending = false
  busy : ftp.transferFile ≠ none → ftp.state.transfer ≠ .none

/-- A turn of the transfer coroutine that keeps the books as long as it can reply. -/
structure Turned (requests : Nat) (ftp left : FtpSession) : Prop where
  closed : left.closed = ftp.closed
  canReply : left.canReply = ftp.canReply
  books : ftp.canReply = true → Books requests left

variable {requests : Nat} {ftp left : FtpSession} {phase : TransferPhase} {reply : FtpReply}

theorem completed_append (h : ftp.replies ≠ []) (reply : FtpReply) :
    (ftp.replies ++ [reply]).tail.countP FtpReply.completes
      = ftp.completed + reply.completes.toNat := by
  rw [List.tail_append_of_ne_nil h, List.countP_append, List.countP_singleton]
  cases reply.completes with
  | true => rfl
  | false => rfl

theorem Books.of_ledger (h : Books requests ftp) (hledger : left.ledger = ftp.ledger) :
    Books requests left := by
  have hreplies : left.replies = ftp.replies := congrArg Ledger.replies hledger
  have hphase : left.transferFile = ftp.transferFile := congrArg Ledger.transferFile hledger
  have htransfer : left.state.transfer = ftp.state.transfer := congrArg Ledger.transfer hledger
  have hpending : left.state.abortPending = ftp.state.abortPending :=
    congrArg Ledger.abortPending hledger
  refine ⟨by rw [hreplies]; exact h.greeted, ?_, ?_, ?_⟩
  · rw [completed, hreplies, hphase, hpending]
    exact h.balance
  · rw [hphase, htransfer, hpending]
    exact h.idle
  · rw [hphase, htransfer]
    exact h.busy

theorem Books.owing (h : Books requests ftp) (hphase : ftp.transferFile = some phase)
    (howes : owes phase = true) : Owing requests ftp := by
  refine ⟨h.greeted, ?_, h.busy (by rw [hphase]; simp)⟩
  have hbalance := h.balance
  rwa [hphase, Option.any_some, howes] at hbalance

theorem Owing.of_files (h : Owing requests ftp) (hfiles : Files ftp left) :
    Owing requests left := by
  rw [hfiles]
  exact ⟨h.greeted, h.balance, h.busy⟩

theorem Owing.waits (h : Owing requests ftp) (howes : owes phase = true) :
    Books requests { ftp with transferFile := some phase } := by
  refine ⟨h.greeted, ?_, nofun, fun _ => h.busy⟩
  rw [Option.any_some, howes]
  exact h.balance

theorem Owing.replying (h : Owing requests ftp) (hreply : reply.completes = !owes phase) :
    Books requests (ftp.replying reply phase) := by
  refine ⟨by simp [FtpSession.replying], ?_, nofun, fun _ => h.busy⟩
  have hcompleted : (ftp.replying reply phase).completed
      = ftp.completed + reply.completes.toNat := completed_append h.greeted reply
  have hbalance := h.balance
  rw [hcompleted, FtpSession.replying, Option.any_some, hreply]
  cases owes phase with
  | true => simpa using hbalance
  | false => simpa using hbalance

theorem turned_lastReply (h : ftp.canReply = true → Owing requests ftp) (resetAbort : Bool)
    (hreply : reply.completes = true) :
    Turned requests ftp (after (lastReply resetAbort reply) ftp) := by
  rw [after_lastReply]
  by_cases hcan : ftp.canReply = true
  · rw [if_pos hcan]
    exact ⟨rfl, rfl, fun _ => (h hcan).replying hreply⟩
  · rw [if_neg hcan]
    exact ⟨rfl, rfl, fun hyes => absurd hyes hcan⟩

theorem owes_of_isData (h : IsData phase) : owes phase = true := by
  cases phase with
  | notifying | ending => exact h.elim
  | _ => rfl

/-- Nothing has happened to the books of a transfer that owes a reply. -/
structure Owed (requests : Nat) (ftp left : FtpSession) : Prop where
  closed : left.closed = ftp.closed
  canReply : left.canReply = ftp.canReply
  owing : ftp.canReply = true → Owing requests left

theorem turned_rule (requests : Nat) (ftp : FtpSession) :
    BodyRule (Owed requests ftp) (Turned requests ftp) where
  files h hfiles := by
    have howing (hcan : ftp.canReply = true) := (h.owing hcan).of_files hfiles
    rw [hfiles]
    rw [hfiles] at howing
    exact ⟨h.closed, h.canReply, howing⟩
  waits h hphase := ⟨h.closed, h.canReply, fun hcan => (h.owing hcan).waits (owes_of_isData hphase)⟩
  replies h _ hreply := ⟨h.closed, h.canReply, fun hcan => (h.owing hcan).replying hreply⟩
  notifies h _ := ⟨h.closed, h.canReply, fun hcan => (h.owing hcan).replying rfl⟩
  ends h hcannot := by
    refine ⟨h.closed, h.canReply, fun hcan => ?_⟩
    rw [h.canReply, hcan] at hcannot
    cases hcannot

theorem owed_of_owing (h : ftp.canReply = true → Owing requests ftp) : Owed requests ftp ftp :=
  ⟨rfl, rfl, h⟩

theorem turned_connected (h : ftp.canReply = true → Owing requests ftp) :
    Turned requests ftp (after connected ftp) := by
  have howed : Owed requests ftp
      { ftp with abortTransfer := some .transferSocket, transferSck := some true } :=
    ⟨rfl, rfl, fun hcan => ⟨(h hcan).greeted, (h hcan).balance, (h hcan).busy⟩⟩
  rw [after_connected]
  split
  · exact ⟨rfl, rfl, fun hcan => (howed.owing hcan).waits rfl⟩
  · exact (turned_rule requests ftp).transferData howed

theorem turned_announced {env : Env} (h : ftp.canReply = true → Owing requests ftp)
    (hexpired : env.expired = false) (hclosed : ftp.closed = false)
    (hpending : ftp.closePending = false) : Turned requests ftp (after (announced env) ftp) := by
  rw [after_announced]
  split
  · rename_i hgone
    refine ⟨rfl, rfl, fun hcan => ?_⟩
    simp only [canReply, Bool.and_eq_true, Bool.not_eq_true'] at hcan
    simp [hcan.1, hexpired, hclosed, hpending] at hgone
  · split
    · exact ⟨rfl, rfl, fun hcan => (h hcan).waits rfl⟩
    · have howing (hcan : ftp.canReply = true) :
          Owing requests { ftp with abortTransfer := some .acceptor } :=
        ⟨(h hcan).greeted, (h hcan).balance, (h hcan).busy⟩
      exact ⟨rfl, rfl, fun hcan => (howing hcan).waits rfl⟩

end Books

section Condition

variable (ftp : FtpSession)

/-- The step ends no write on the control connection, or one that succeeds. -/
def writesSucceed : Event → Bool
  | .written _ ok => ok
  | .transfer _ answer =>
      match ftp.transferFile with
      | some .announcing | some (.warning _) | some .notifying | some (.ending _) => answer.isDone
      | _ => true
  | _ => true

/-- A step that neither forgets a reply nor sends one too many. -/
def answersOnce : Event → Bool
  | .request env line =>
      match ftp.handlerOf (.request env line) with
      | some entry => entry.cmd != .abor || (ftp.state.isInTransfer && !ftp.state.abortPending)
      | none => true
  | .transfer env answer =>
      match ftp.transferFile with
      | some .announcing => !env.expired
      | some (.sending _) => !(answer.isDone && env.expired)
      | some (.receiving _) => !answer.isData || (!env.expired && ftp.transferSck = some true)
      | some (.ending _) => !ftp.state.abortPending
      | _ => true
  | _ => true

end Condition

section Turns

variable {requests : Nat} {ftp : FtpSession} {env : Env} {answer : Answer} {phase : TransferPhase}

/-- The end of the write of a reply, as far as the books are concerned. -/
structure WritesReply (before after : FtpSession) : Prop where
  closed : after.closed = before.closed
  closePending : after.closePending = before.closePending
  canReply : after.canReply = true → before.canReply = true
  books : ∀ requests, Books requests before → Books requests after

theorem writesReply_replyWritten (env : Env) (written : Bool) (ftp : FtpSession) :
    WritesReply ftp (after (replyWritten env written) ftp) := by
  rw [after_replyWritten]
  cases written with
  | true =>
      refine ⟨rfl, rfl, fun hcan => ?_, fun _ h => ⟨h.greeted, h.balance, h.idle, h.busy⟩⟩
      simp only [canReply, if_true, Bool.and_eq_true] at hcan ⊢
      exact ⟨hcan.1, hcan.2.1⟩
  | false =>
      refine ⟨rfl, rfl, fun hcan => ?_, fun _ h => ⟨h.greeted, h.balance, h.idle, h.busy⟩⟩
      simp [canReply] at hcan

/-- Once the last reply is sent, a transfer ends with the books in order unless an ABOR is pending. -/
theorem Books.ended (h : Books requests ftp) (hphase : ftp.transferFile = some phase)
    (howes : owes phase = false) (hpending : ftp.state.abortPending = false) (resetAbort : Bool) :
    Books requests (ftp.ended resetAbort) := by
  refine ⟨h.greeted, ?_, fun _ => ⟨rfl, hpending⟩, nofun⟩
  have hbalance := h.balance
  rwa [hphase, Option.any_some, howes] at hbalance

theorem turned_notified (hphase : ftp.transferFile = some .notifying)
    (hbooks : ftp.canReply = true → Books requests ftp) :
    Turned requests ftp (after notified ftp) := by
  rw [after_notified]
  cases hpending : ftp.state.abortPending with
  | true =>
      let answering : FtpSession := { ftp with state := { ftp.state with abortPending := false } }
      have howing (hcan : answering.canReply = true) : Owing requests answering := by
        have h := hbooks hcan
        refine ⟨h.greeted, ?_, h.busy (by rw [hphase]; simp)⟩
        have hbalance := h.balance
        rwa [hphase, hpending] at hbalance
      have hturned : Turned requests answering (after (lastReply true
          { code := .closingDataConnection, message := bytes "ABOR command successful" })
          answering) := turned_lastReply howing true rfl
      exact ⟨hturned.closed, hturned.canReply, hturned.books⟩
  | false =>
      exact ⟨rfl, rfl, fun hcan => (hbooks hcan).ended hphase rfl hpending true⟩

/-- **A turn of the transfer coroutine.** -/
theorem turned_resume (hphase : ftp.transferFile = some phase) (hclosed : ftp.closed = false)
    (hclosePending : ftp.closePending = false)
    (hbooks : ftp.canReply = true → Books requests ftp)
    (hsucceeds : ftp.writesSucceed (.transfer env answer) = true)
    (hanswers : ftp.answersOnce (.transfer env answer) = true) :
    ∃ base, (base = ftp ∨ base = after (replyWritten env true) ftp)
      ∧ Turned requests base (after (resume env answer) ftp) := by
  let written := after (replyWritten env true) ftp
  have hwrites : WritesReply ftp written := writesReply_replyWritten env _ ftp
  have hwritten (hcan : written.canReply = true) : Books requests written :=
    hwrites.books requests (hbooks (hwrites.canReply hcan))
  have hsame : written.transferFile = some phase :=
    (loops_replyWritten env true ftp).transferFile.trans hphase
  have howing (howes : owes phase = true) (hcan : ftp.canReply = true) : Owing requests ftp :=
    (hbooks hcan).owing hphase howes
  have howed (howes : owes phase = true) (hcan : written.canReply = true) :
      Owing requests written := (hwritten hcan).owing hsame howes
  simp only [writesSucceed, hphase] at hsucceeds
  simp only [answersOnce, hphase] at hanswers
  cases phase with
  | spawned =>
      refine ⟨ftp, .inl rfl, ?_⟩
      rw [resume_spawned hphase]
      by_cases hcan : ftp.canReply = true
      · rw [if_pos hcan]
        exact ⟨rfl, rfl, fun hcan => (howing rfl hcan).replying rfl⟩
      · rw [if_neg hcan, after_announced]
        split
        · exact ⟨rfl, rfl, fun hyes => absurd hyes hcan⟩
        · split <;> exact ⟨rfl, rfl, fun hyes => absurd hyes hcan⟩
  | announcing =>
      refine ⟨written, .inr rfl, ?_⟩
      have hdone : answer.isDone = true := hsucceeds
      rw [resume_announcing hphase, hdone]
      exact turned_announced (howed rfl) (by simpa using hanswers) (hwrites.closed.trans hclosed)
        (hwrites.closePending.trans hclosePending)
  | connecting =>
      refine ⟨ftp, .inl rfl, ?_⟩
      rw [resume_connecting hphase]
      split
      · exact turned_connected (howing rfl)
      · exact turned_lastReply (howing rfl) false rfl
  | accepting =>
      refine ⟨ftp, .inl rfl, ?_⟩
      rw [resume_accepting hphase]
      split
      · exact turned_connected (howing rfl)
      · exact turned_lastReply (howing rfl) false rfl
  | handshaking =>
      refine ⟨ftp, .inl rfl, ?_⟩
      rw [resume_handshaking hphase]
      split
      · exact (turned_rule requests ftp).transferData (owed_of_owing (howing rfl))
      · exact turned_lastReply (howing rfl) false rfl
  | sending buffer =>
      refine ⟨ftp, .inl rfl, ?_⟩
      have hmoved : Owed requests ftp { ftp with sent := ftp.sent ++ buffer } :=
        ⟨rfl, rfl, fun hcan =>
          ⟨(howing rfl hcan).greeted, (howing rfl hcan).balance, (howing rfl hcan).busy⟩⟩
      refine (turned_rule requests ftp).sending hphase (owed_of_owing (howing rfl)) hmoved ?_
      intro hdone hexpired
      simp [hdone, hexpired] at hanswers
  | receiving buffer =>
      refine ⟨ftp, .inl rfl, ?_⟩
      refine (turned_rule requests ftp).receiving hphase (owed_of_owing (howing rfl)) ?_ ?_
      · rintro read left rfl hexpired
        simp [Answer.isData, hexpired] at hanswers
      · rintro read left rfl hclosed
        simp [Answer.isData, hclosed] at hanswers
  | warning count =>
      refine ⟨written, .inr rfl, ?_⟩
      have hdone : answer.isDone = true := hsucceeds
      refine (turned_rule requests written).warning hphase ?_
      rw [hdone]
      exact owed_of_owing (howed rfl)
  | shuttingDown transfer =>
      refine ⟨ftp, .inl rfl, ?_⟩
      have hclosing : Owed requests ftp { ftp with transferSck := some false } :=
        ⟨rfl, rfl, fun hcan =>
          ⟨(howing rfl hcan).greeted, (howing rfl hcan).balance, (howing rfl hcan).busy⟩⟩
      exact (turned_rule requests ftp).shuttingDown hphase (owed_of_owing (howing rfl)) hclosing
  | notifying =>
      refine ⟨written, .inr rfl, ?_⟩
      have hdone : answer.isDone = true := hsucceeds
      rw [resume_notifying hphase, hdone]
      exact turned_notified hsame hwritten
  | ending resetAbort =>
      refine ⟨written, .inr rfl, ?_⟩
      have hdone : answer.isDone = true := hsucceeds
      rw [resume_ending hphase, hdone]
      have hpending : written.state.abortPending = ftp.state.abortPending :=
        congrArg Terms.abortPending (loops_replyWritten env true ftp).terms
      refine ⟨rfl, rfl, fun hcan => (hwritten hcan).ended hsame rfl ?_ resetAbort⟩
      simpa [hpending] using hanswers

end Turns

section Requests

variable {requests : Nat} {ftp : FtpSession} {env : Env} {cmd : FtpCmd} {param : Bytes}

theorem Books.replied (h : Books requests ftp) {reply : FtpReply}
    (hreply : reply.completes = true) :
    Books (requests + 1) { ftp with replies := ftp.replies ++ [reply] } := by
  refine ⟨by simp, ?_, h.idle, h.busy⟩
  have hbalance := h.balance
  rw [completed, completed_append h.greeted, hreply, Bool.toNat_true]
  change ftp.completed + 1 + (ftp.transferFile.any owes).toNat + ftp.state.abortPending.toNat = _
  omega

theorem Books.started {left : FtpSession} (h : Books requests ftp)
    (hidle : ftp.transferFile = none) (hreplies : left.replies = ftp.replies)
    (hpending : left.state.abortPending = ftp.state.abortPending)
    (hspawned : left.transferFile = some .spawned) (hbusy : left.state.transfer ≠ .none) :
    Books (requests + 1) left := by
  have hbalance := h.balance
  refine ⟨by rw [hreplies]; exact h.greeted, ?_, fun hnone => ?_, fun _ => hbusy⟩
  · rw [hidle, Option.any_none, Bool.toNat_false] at hbalance
    rw [completed, hreplies, hspawned, hpending]
    change ftp.completed + 1 + ftp.state.abortPending.toNat = _
    omega
  · rw [hspawned] at hnone
    cases hnone

theorem Books.aborted (h : Books requests ftp) (hin : ftp.state.isInTransfer = true)
    (hpending : ftp.state.abortPending = false) :
    Books (requests + 1) { ftp with state := ftp.state.abort } := by
  have hbalance := h.balance
  rw [FtpState.isInTransfer, bne_iff_ne] at hin
  refine ⟨h.greeted, ?_, fun hnone => absurd (h.idle hnone).1 hin, h.busy⟩
  rw [hpending, Bool.toNat_false] at hbalance
  change ftp.completed + (ftp.transferFile.any owes).toNat + 1 = _
  omega

/-- The state of the loop as long as it can come to another request. -/
structure Open (requests : Nat) (ftp : FtpSession) : Prop where
  closed : ftp.closed = false
  closePending : ftp.closePending = false
  created : ftp.control = .created → requests = 0 ∧ ftp.replies = [] ∧ ftp.transferFile = none
    ∧ ftp.state.transfer = .none ∧ ftp.state.abortPending = false
  fetching : ftp.control = .fetching → ftp.canReply = true
  books : ftp.control ≠ .created → ftp.canReply = true → Books requests ftp

theorem after_handled_some (reply : FtpReply) :
    after (handled env cmd (some reply)) ftp
      = after (controlReply env reply (if reply.endSession then .endSession else .loop))
          { ftp with prevCmdName := some cmd } := by
  unfold handled
  rw [after_bind_of_returns (returns_modify _)]
  rfl

theorem Open.replied (h : Open requests ftp) (hcontrol : ftp.control = .fetching) {reply : FtpReply}
    (hreply : reply.completes = true) {next : AfterReply}
    (hlive : Live (after (controlReply env reply next) ftp)) :
    Open (requests + 1) (after (controlReply env reply next) ftp) := by
  have hbooks := h.books (by simp [hcontrol]) (h.fetching hcontrol)
  obtain ⟨heq, -, -⟩ := controlReply_of_live hlive
  rw [heq]
  refine ⟨h.closed, h.closePending, nofun, nofun, fun _ _ => ?_⟩
  exact (hbooks.replied hreply).of_ledger rfl

theorem Open.silent {left : FtpSession} (h : Open requests ftp)
    (hbooks : left.canReply = true → Books (requests + 1) left)
    (hclosed : left.closed = ftp.closed) (hpending : left.closePending = ftp.closePending)
    (hlive : Live (after (handled env cmd none) left)) :
    Open (requests + 1) (after (handled env cmd none) left) := by
  obtain ⟨hledger, hcontrol, hcan⟩ := handled_none_of_live hlive
  refine ⟨?_, ?_, ?_, fun _ => ?_, fun _ _ => (hbooks hcan).of_ledger hledger⟩
  · exact (congrArg Ledger.closed hledger).trans (hclosed.trans h.closed)
  · exact (congrArg Ledger.closePending hledger).trans (hpending.trans h.closePending)
  · rw [hcontrol]
    exact nofun
  · exact (congrArg Ledger.canReply hledger).trans hcan

/-- **A request that is handled.** -/
theorem Open.handle (h : Open requests ftp) (hcontrol : ftp.control = .fetching)
    (haccepts : Accepts ftp cmd)
    (habor : cmd = .abor → ftp.state.isInTransfer = true ∧ ftp.state.abortPending = false)
    (hlive : Live (after (handle env cmd param) ftp)) :
    Open (requests + 1) (after (handle env cmd param) ftp) := by
  have hbooks := h.books (by simp [hcontrol]) (h.fetching hcontrol)
  let entry : Handled := ⟨env, cmd, param, ftp⟩
  have htouches := touches_onCmd env param cmd entry.start
  have hleaves := keeps_onCmd env param cmd entry.start
  rw [after_handle] at hlive ⊢
  cases hresult : entry.result with
  | error e left =>
      rw [hresult] at hlive
      exact absurd hlive (not_live_controlReply (by simp))
  | ok reply left =>
      rw [hresult] at hlive
      have hrun : (cmd.onCmd env param).run entry.start = .ok reply left := hresult
      rw [after_of_ok hrun] at htouches hleaves
      have hclosed : left.closed = ftp.closed := htouches.closed
      have hclosePending : left.closePending = ftp.closePending := hleaves.closePending
      by_cases hcmd : cmd = .abor
      · subst hcmd
        cases hresult
        obtain ⟨hin, hpending⟩ := habor rfl
        exact h.silent (fun _ => (hbooks.aborted hin hpending).of_ledger rfl) rfl rfl hlive
      · have hpending : left.state.abortPending = ftp.state.abortPending :=
          htouches.abortPending hcmd
        cases answered_onCmd hcmd hrun with
        | @replies reply _ hreply hphase =>
            have hledger : left.ledger = ftp.ledger := by
              have hsame : left.transferFile = ftp.transferFile := hphase.transferFile
              have htransfer : left.state.transfer = ftp.state.transfer := hphase.transfer
              have hreplies : left.replies = ftp.replies := htouches.replies
              have hcan : left.canReply = ftp.canReply := htouches.canReply
              unfold ledger
              rw [hreplies, hsame, htransfer, hpending, hclosed, hclosePending, hcan]
            have hleft : Open requests { left with prevCmdName := some cmd } := by
              have hfetching : left.control = .fetching := hleaves.control.trans hcontrol
              refine ⟨hclosed.trans h.closed, hclosePending.trans h.closePending, ?_, fun _ => ?_,
                fun _ _ => hbooks.of_ledger hledger⟩
              · rw [show FtpSession.control _ = _ from hfetching]
                exact nofun
              · exact (congrArg Ledger.canReply hledger).trans (h.fetching hcontrol)
            dsimp only at hlive ⊢
            rw [after_handled_some] at hlive ⊢
            exact hleft.replied (hleaves.control.trans hcontrol) hreply hlive
        | starts hspawned hbusy =>
            have hstarts : cmd.startsTransfer = true := by
              by_contra hno
              exact completing_onCmd env param (by simpa using hno) hcmd _ _ _ hrun
            have hnot := (startsTransfer_eq_true hstarts).1
            have hidle : ftp.transferFile = none := by
              by_contra hphase
              have hin := haccepts.notInTransfer hnot
              rw [FtpState.isInTransfer, bne_eq_false_iff_eq] at hin
              exact hbooks.busy hphase hin
            refine h.silent (fun _ => ?_) hclosed hclosePending hlive
            exact hbooks.started hidle htouches.replies hpending hspawned hbusy

/-- The codes with which a request is refused in front of its handler. -/
def refusalCodes : List FtpReplyCodes :=
  [.syntaxError, .syntaxErrorInParams, .badSequenceOfCommands, .notLoggedOn, .actionNotTaken,
    .rejectedForPolicyReasons]

theorem code_mem_of_refusal {reply : FtpReply} (h : ftp.refusal cmd = some reply) :
    reply.code ∈ refusalCodes := by
  unfold refusal at h
  simp only [ite_eq_iff, reduceCtorEq, and_false, or_false, Option.some.injEq] at h
  rcases h with ⟨-, rfl⟩ | ⟨-, ⟨-, rfl⟩ | ⟨-, ⟨-, rfl⟩ | ⟨-, ⟨-, rfl⟩ | ⟨-, ⟨-, rfl⟩ | ⟨-, ⟨-, rfl⟩ |
    ⟨-, -, rfl⟩⟩⟩⟩⟩⟩
  all_goals simp [refusalCodes]

theorem code_mem_of_dispatch {line : Bytes} {reply : FtpReply}
    (h : ftp.dispatch env line = .refuse reply) : reply.code ∈ refusalCodes := by
  unfold dispatch at h
  split at h
  · cases h
    simp [refusalCodes]
  · split at h
    · cases h
    · split at h
      · cases h
        exact code_mem_of_refusal ‹_›
      · dsimp only at h
        split at h
        · cases h
        · cases h
          simp [refusalCodes]

theorem completes_of_dispatch {line : Bytes} {reply : FtpReply}
    (h : ftp.dispatch env line = .refuse reply) : reply.completes = true := by
  have hall : ∀ code ∈ refusalCodes, 200 ≤ code.resolve.1 := by decide
  exact decide_eq_true (hall _ (code_mem_of_dispatch h))

theorem Open.request {line : Bytes} (h : Open requests ftp) (hcontrol : ftp.control = .fetching)
    (hanswers : ftp.answersOnce (.request env line) = true)
    (hlive : Live (after (processRequest env line) ftp)) :
    Open (requests + 1) (after (processRequest env line) ftp) := by
  rw [after_processRequest] at hlive ⊢
  cases hdispatch : ftp.dispatch env line with
  | ignore =>
      rw [hdispatch] at hlive
      obtain ⟨-, hexpired, -, -⟩ := nextCommand_of_live hlive
      -- only a session that has expired ignores a request
      unfold dispatch at hdispatch
      simp only [hexpired, Bool.false_eq_true, if_false] at hdispatch
      repeat' split at hdispatch
      all_goals cases hdispatch
  | refuse reply =>
      rw [hdispatch] at hlive
      exact h.replied hcontrol (completes_of_dispatch hdispatch) hlive
  | handle cmd param =>
      rw [hdispatch] at hlive
      have hhandler := handlerOf_of_dispatch hcontrol hdispatch
      refine h.handle hcontrol (accepts_of_handlerOf hhandler) ?_ hlive
      rintro rfl
      simpa [answersOnce, hhandler] using hanswers

end Requests

section Runs

variable {count : Nat} {ftp : FtpSession}

/-- The request line that the command loop takes in a step. -/
def requestOf (ftp : FtpSession) : Event → Option Bytes
  | .request _ line => if ftp.control = .fetching then some line else none
  | _ => none

def requests (ftp : FtpSession) (events : List Event) : List Bytes :=
  Machine.trace step requestOf ftp events

theorem Open.start {env : Env} (h : Open count ftp) (hcontrol : ftp.control = .created)
    (hlive : Live (after (processCommands env) ftp)) :
    Open count (after (processCommands env) ftp) := by
  obtain ⟨rfl, hreplies, hphase, htransfer, hpending⟩ := h.created hcontrol
  unfold processCommands at hlive ⊢
  split at hlive
  · simp [Live, control_leaveLoop] at hlive
  · rename_i hexpired
    rw [if_neg hexpired]
    obtain ⟨heq, -, -⟩ := controlReply_of_live hlive
    rw [heq]
    refine ⟨h.closed, h.closePending, ?_, ?_, fun _ _ => ⟨by simp, ?_, fun _ => ?_, ?_⟩⟩
    · intro hcreated
      cases hcreated
    · intro hwaits
      cases hwaits
    · rw [completed, hreplies, hphase, hpending]
      rfl
    · exact ⟨htransfer, hpending⟩
    · exact fun hsome => absurd hphase hsome

theorem Open.written {env : Env} {ok : Bool} {next : AfterReply} (h : Open count ftp)
    (hcontrol : ftp.control = .replying next) (hlive : Live (ftp.step (.written env ok))) :
    Open count (ftp.step (.written env ok)) := by
  have hwrites := writesReply_replyWritten env ok ftp
  rw [step_written hcontrol, after_bind_of_returns (returns_replyWritten env ok)] at hlive ⊢
  obtain ⟨heq, -, -, hcan⟩ := afterReply_of_live hlive
  have hbooks := h.books (by simp [hcontrol]) (hwrites.canReply hcan)
  rw [heq]
  refine ⟨hwrites.closed.trans h.closed, hwrites.closePending.trans h.closePending, nofun,
    fun _ => hcan, fun _ _ => ?_⟩
  exact (hwrites.books count hbooks).of_ledger rfl

theorem Open.transfer {env : Env} {answer : Answer} (h : Open count ftp) (htasks : NoTasks ftp)
    (hwrites : ftp.writesSucceed (.transfer env answer) = true)
    (hanswers : ftp.answersOnce (.transfer env answer) = true) :
    Open count (ftp.step (.transfer env answer)) := by
  rw [step]
  cases hphase : ftp.transferFile with
  | none => rwa [resume_of_none hphase]
  | some phase =>
      have hcreated : ftp.control ≠ .created := by
        intro hcontrol
        rw [(h.created hcontrol).2.2.1] at hphase
        cases hphase
      have hsame := keeps_resume_tasks env answer ftp
      obtain ⟨base, hbase, hturned⟩ :=
        turned_resume hphase h.closed h.closePending (h.books hcreated) hwrites hanswers
      have hwritten := writesReply_replyWritten env true ftp
      have hclosed : base.closed = ftp.closed := by
        rcases hbase with rfl | rfl
        · rfl
        · exact hwritten.closed
      refine ⟨hturned.closed.trans (hclosed.trans h.closed), ?_, ?_, ?_, ?_⟩
      · exact (congrArg Core.closePending hsame).trans h.closePending
      · rw [hsame.control]
        exact fun hcontrol => absurd hcontrol hcreated
      · rw [hsame.control, hturned.canReply]
        intro hcontrol
        have hcan := h.fetching hcontrol
        rcases hbase with rfl | rfl
        · exact hcan
        · rw [after_replyWritten, htasks hcontrol]
          simpa [canReply] using hcan
      · exact fun _ hcan => hturned.books (hturned.canReply.symm.trans hcan)

/-- **One step.** Every request that is taken is one more to answer. -/
theorem Open.step (h : Live ftp → Open count ftp) (htasks : NoTasks ftp) {event : Event}
    (hwrites : ftp.writesSucceed event = true) (hanswers : ftp.answersOnce event = true)
    (hlive : Live (ftp.step event)) :
    Open (count + (ftp.requestOf event).toList.length) (ftp.step event) := by
  have hopen := h (live_of_live_step hlive)
  cases event with
  | start env =>
      by_cases hcontrol : ftp.control = .created
      · rw [FtpSession.step, if_pos hcontrol] at hlive ⊢
        exact hopen.start hcontrol hlive
      · rw [FtpSession.step, if_neg hcontrol]
        exact hopen
  | request env line =>
      by_cases hcontrol : ftp.control = .fetching
      · rw [FtpSession.step, if_pos hcontrol] at hlive ⊢
        rw [requestOf, if_pos hcontrol]
        exact hopen.request hcontrol hanswers hlive
      · rw [FtpSession.step, if_neg hcontrol, requestOf, if_neg hcontrol]
        exact hopen
  | inputTooBig env =>
      by_cases hcontrol : ftp.control = .fetching
      · rw [FtpSession.step, if_pos hcontrol] at hlive
        exact absurd hlive (not_live_controlReply (by simp))
      · rw [FtpSession.step, if_neg hcontrol]
        exact hopen
  | noInput env =>
      by_cases hcontrol : ftp.control = .fetching
      · rw [FtpSession.step, if_pos hcontrol] at hlive
        simp [Live, control_leaveLoop] at hlive
      · rw [FtpSession.step, if_neg hcontrol]
        exact hopen
  | written env ok =>
      cases hcontrol : ftp.control with
      | replying next => exact hopen.written hcontrol hlive
      | _ =>
          simp only [FtpSession.step, hcontrol]
          exact hopen
  | transfer env answer => exact hopen.transfer htasks hwrites hanswers

/-- What a run has counted. -/
structure Counted (past : List Bytes) (ftp : FtpSession) : Prop where
  noTasks : NoTasks ftp
  openIfLive : Live ftp → Open past.length ftp

theorem Counted.step {past : List Bytes} (h : Counted past ftp) {event : Event}
    (hwrites : ftp.writesSucceed event = true) (hanswers : ftp.answersOnce event = true) :
    Counted (past ++ (ftp.requestOf event).toList) (ftp.step event) := by
  refine ⟨noTasks_step ftp event h.noTasks, fun hlive => ?_⟩
  rw [List.length_append]
  exact Open.step h.openIfLive h.noTasks hwrites hanswers hlive

theorem open_fresh (permissions : Permissions) (disk : Disk) (segmentSize : Nat) :
    Open 0 (fresh permissions disk segmentSize) :=
  ⟨rfl, rfl, fun _ => ⟨rfl, rfl, rfl, rfl, rfl⟩, nofun, fun hcontrol => absurd rfl hcontrol⟩

end Runs

end FtpSession

section Results

/-- **One completion reply per request.** In a run whose writes succeed and whose steps all answer
once, the replies since the greeting that complete a request are as many as the request lines,
whenever the loop waits for input and no transfer runs. -/
theorem completed_eq_requests (permissions : Permissions) (disk : Disk) (segmentSize : Nat)
    (events : List Event)
    (h : Machine.Along FtpSession.step
      (fun ftp event => ftp.writesSucceed event = true ∧ ftp.answersOnce event = true)
      (fresh permissions disk segmentSize) events)
    (hcontrol : ((fresh permissions disk segmentSize).run events).control = .fetching)
    (htransfer : ((fresh permissions disk segmentSize).run events).transferFile = none) :
    ((fresh permissions disk segmentSize).run events).completed
      = ((fresh permissions disk segmentSize).requests events).length := by
  have hstart : Counted [] (fresh permissions disk segmentSize) :=
    ⟨fun _ => rfl, fun _ => open_fresh permissions disk segmentSize⟩
  have hrun : Counted ((fresh permissions disk segmentSize).requests events)
      ((fresh permissions disk segmentSize).run events) :=
    Machine.trace_induction_along FtpSession.step requestOf Counted
      (fun _ _ _ hstep h => h.step hstep.1 hstep.2) hstart h
  have hopen := hrun.openIfLive (.inr (.inl hcontrol))
  have hbooks := hopen.books (by simp [hcontrol]) (hopen.fetching hcontrol)
  have hbalance := hbooks.balance
  rw [htransfer, (hbooks.idle htransfer).2] at hbalance
  exact hbalance

/-- A download that is aborted: 230, 200, 200, 426 and 226 for five requests. -/
theorem completed_eq_requests_aborted :
    let ftp := fresh oneMount (oneFileDisk [7, 8]) 4096
    let events := transferOf "RETR a" ++ turns [.done, .done, .done]
      ++ [.request joeEnv (bytes "ABOR")] ++ turns [.failed, .done, .done]
    (ftp.run events).completed = (ftp.requests events).length :=
  completed_eq_requests oneMount (oneFileDisk [7, 8]) 4096 _ (by decide +kernel)
    (by decide +kernel) (by decide +kernel)

/-- An ABOR without a transfer is not answered. -/
theorem not_completed_eq_requests_idle :
    let ftp := fresh oneMount (oneFileDisk [7, 8]) 4096
    let events := [.start joeEnv, .written joeEnv true] ++ exchange "USER joe"
      ++ [.request joeEnv (bytes "ABOR")]
    Machine.Along FtpSession.step (fun ftp event => ftp.writesSucceed event = true) ftp events
      ∧ (ftp.run events).control = .fetching ∧ (ftp.run events).transferFile = none
      ∧ (ftp.requests events).length = 2
      ∧ (ftp.run events).replies.map FtpReply.code = [.ready, .loggedIn]
      ∧ (ftp.run events).completed ≠ (ftp.requests events).length := by
  intro ftp events
  have hrequests : (ftp.requests events).length = 2 := by decide +kernel
  refine ⟨?_, ?_, ?_, hrequests, ?_, ?_⟩
  case refine_5 => rw [hrequests]; decide +kernel
  all_goals decide +kernel

end Results

end Wfde
