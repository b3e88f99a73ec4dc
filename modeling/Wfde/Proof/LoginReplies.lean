import Wfde.AuthManager
import Wfde.Proof.Login
import Wfde.Proof.Rename

/-!
# Login replies

Two runs of the same events against two user databases. As long as no login succeeds the sessions
differ in nothing but the record of what their last handler has asked for.
-/

namespace Wfde

open Effect FtpSession

theorem AuthManagerImpl.login_eq_error {auth : AuthManagerImpl} {name pwd : Bytes} {e : Exception}
    (h : auth.login name pwd = .error e) : e = .notFound ∨ e = .needPasswd ∨ e = .badCredentials := by
  unfold login at h
  split at h
  · cases h
    exact .inl rfl
  · split at h
    · cases h
      exact .inr (.inl rfl)
    · split at h
      · cases h
        exact .inr (.inr rfl)
      · cases h

namespace FtpSession

/-- Two sessions that differ in nothing but their records of calls. -/
def Alike (a b : FtpSession) : Prop := b = { a with calls := b.calls }

section Loop

variable (env : Env) (first second : AuthManagerImpl)

theorem agrees_callAbort : Agrees Alike callAbort callAbort := by
  refine agrees_get fun a b h => ?_
  rw [h]
  dsimp only
  split
  · exact agrees_pure _
  · refine agrees_modify fun s t hst => ?_
    rw [hst]
    rfl
  · refine agrees_modify fun s t hst => ?_
    rw [hst]
    rfl

theorem agrees_doClose :
    Agrees Alike (doClose (env.against first)) (doClose (env.against second)) := by
  refine agrees_get fun a b h => ?_
  rw [h]
  refine agrees_ite (agrees_bind ?_ fun _ => agrees_bind ?_ fun _ => ?_) (agrees_pure _)
  · refine agrees_modify fun s t hst => ?_
    rw [hst]
    rfl
  · refine agrees_modify fun s t hst => ?_
    rw [hst]
    rfl
  · exact agrees_ite agrees_callAbort (agrees_pure _)

theorem agrees_leaveLoop :
    Agrees Alike (leaveLoop (env.against first)) (leaveLoop (env.against second)) := by
  refine agrees_bind (agrees_doClose env first second) fun _ => agrees_modify fun s t hst => ?_
  rw [hst]
  rfl

theorem agrees_nextCommand :
    Agrees Alike (nextCommand (env.against first)) (nextCommand (env.against second)) := by
  refine agrees_get fun a b h => ?_
  rw [h]
  refine agrees_ite (agrees_modify fun s t hst => ?_) (agrees_leaveLoop env first second)
  rw [hst]
  rfl

theorem agrees_afterReply (next : AfterReply) :
    Agrees Alike (afterReply (env.against first) next) (afterReply (env.against second) next) := by
  cases next with
  | loop => exact agrees_nextCommand env first second
  | endSession =>
      refine agrees_bind (agrees_modify fun s t hst => ?_) fun _ => agrees_nextCommand env first second
      rw [hst]
      rfl
  | closePending =>
      refine agrees_bind (agrees_modify fun s t hst => ?_) fun _ => agrees_nextCommand env first second
      rw [hst]
      rfl
  | leave => exact agrees_leaveLoop env first second

theorem agrees_controlReply (reply : FtpReply) (next : AfterReply) :
    Agrees Alike (controlReply (env.against first) reply next)
      (controlReply (env.against second) reply next) := by
  refine agrees_get fun a b h => ?_
  rw [h]
  refine agrees_ite (agrees_modify fun s t hst => ?_) (agrees_afterReply env first second next)
  rw [hst]
  rfl

theorem agrees_handled (cmd : FtpCmd) (reply : FtpReply) :
    Agrees Alike (handled (env.against first) cmd (some reply))
      (handled (env.against second) cmd (some reply)) := by
  refine agrees_bind (agrees_modify fun s t hst => ?_) fun _ => agrees_controlReply env first second _ _
  rw [hst]
  rfl

theorem alike_replyWritten {a b : FtpSession} (h : Alike a b) (written : Bool) :
    Alike (after (replyWritten (env.against first) written) a)
      (after (replyWritten (env.against second) written) b) := by
  rw [after_replyWritten, after_replyWritten, h]
  cases written with
  | true => rfl
  | false => rfl

end Loop

section Handlers

variable {env : Env} {first second : AuthManagerImpl} {a b : FtpSession} {cmd : FtpCmd}

/-- The handlers that need no login ask the world for nothing but a login. -/
theorem onCmd_against (hcmd : cmd.mustBeLoggedIn = false) (huser : cmd ≠ .user) (hpass : cmd ≠ .pass)
    (param : Bytes) : cmd.onCmd (env.against first) param = cmd.onCmd (env.against second) param := by
  cases cmd with
  | user => exact absurd rfl huser
  | pass => exact absurd rfl hpass
  | quit | abor | feat | syst | type | noop | auth | pbsz | prot => rfl
  | _ => cases hcmd

theorem tryLogin_run {ftp : FtpSession} (hclient : ftp.session.client = none) {pwd : Bytes}
    (refused : FtpReplyCodes)
    (hlogin : ∀ client, first.login ftp.state.loginName pwd ≠ .ok client) :
    (tryLogin (env.against first) pwd refused).run ftp
      = .ok (some { code := refused }) { ftp with
          calls := ftp.calls ++ [.login ftp.state.loginName pwd
            (first.login ftp.state.loginName pwd)] } := by
  have hrefused : ftp.session.authenticateWithPasswd first.login ftp.state.loginName pwd
      = .ok (false, ftp.session) := by
    unfold Session.authenticateWithPasswd
    rw [if_neg (by simp [hclient])]
    cases hresult : first.login ftp.state.loginName pwd with
    | ok client => exact absurd hresult (hlogin client)
    | error e =>
        rcases AuthManagerImpl.login_eq_error hresult with rfl | rfl | rfl
        · rfl
        · rfl
        · rfl
  have hrun := authenticateWithPasswd_run (env.against first) hclient ftp.state.loginName pwd
  rw [show (env.against first).login = first.login from rfl, hrefused] at hrun
  unfold tryLogin
  rw [EStateM.run_bind, show getState.run ftp = .ok ftp.state ftp from rfl]
  dsimp only
  rw [EStateM.run_bind, hrun]
  rfl

theorem after_handle_refused (entry : Handled) (stored : FtpSession) {pwd : Bytes}
    {refused : FtpReplyCodes}
    (hresult : entry.result = (tryLogin (env.against first) pwd refused).run stored)
    (hclient : stored.session.client = none)
    (hlogin : ∀ client, first.login stored.state.loginName pwd ≠ .ok client) :
    ∃ calls, after (handle entry.env entry.cmd entry.param) entry.before
      = after (handled entry.env entry.cmd (some { code := refused })) { stored with calls } := by
  rw [after_handle, show (Handled.mk entry.env entry.cmd entry.param entry.before) = entry from rfl,
    hresult, tryLogin_run hclient refused hlogin]
  exact ⟨_, rfl⟩

/-- No login is granted to the handler that an event makes run. -/
def Refuses (ftp : FtpSession) (event : Event) : Prop :=
  ∀ entry, ftp.handlerOf event = some entry → ∀ name pwd client, ¬ entry.Granted name pwd client

theorem Refuses.login {entry : Handled} {name pwd : Bytes} {event : Event} (h : Refuses a event)
    (hhandler : a.handlerOf event = some entry) (hattempt : Attempt entry name pwd)
    (hcmd : entry.cmd = .user ∨ entry.cmd = .pass) (client : Client) :
    entry.env.login name pwd ≠ .ok client := by
  intro hok
  exact h entry hhandler name pwd client ((hattempt.granted_iff hcmd).mpr ⟨rfl, rfl, hok⟩)

theorem alike_of_refused {param pwd : Bytes} {refused : FtpReplyCodes} {stored : FtpSession}
    (hleft : (Handled.mk (env.against first) cmd param a).result
      = (tryLogin (env.against first) pwd refused).run stored)
    (hright : (Handled.mk (env.against second) cmd param b).result
      = (tryLogin (env.against second) pwd refused).run stored)
    (hclient : stored.session.client = none)
    (hfirst : ∀ client, first.login stored.state.loginName pwd ≠ .ok client)
    (hsecond : ∀ client, second.login stored.state.loginName pwd ≠ .ok client) :
    Alike (after (handle (env.against first) cmd param) a)
      (after (handle (env.against second) cmd param) b) := by
  obtain ⟨calls, hafter⟩ := after_handle_refused _ stored hleft hclient hfirst
  obtain ⟨calls', hafter'⟩ := after_handle_refused _ stored hright hclient hsecond
  dsimp only at hafter hafter'
  rw [hafter, hafter']
  exact (agrees_handled env first second cmd _).after rfl

theorem result_user (env : Env) (param : Bytes) (ftp : FtpSession) :
    (Handled.mk env .user param ftp).result
      = (tryLogin env [] .needPasswd).run
          { ftp with calls := [], state := { ftp.state with loginName := param } } := rfl

theorem result_pass (env : Env) (param : Bytes) (ftp : FtpSession) :
    (Handled.mk env .pass param ftp).result
      = (tryLogin env param .notLoggedOn).run { ftp with calls := [] } := rfl

theorem Alike.user (h : Alike a b) (hclient : a.session.client = none) {param : Bytes}
    (hfirst : ∀ client, first.login param [] ≠ .ok client)
    (hsecond : ∀ client, second.login param [] ≠ .ok client) :
    Alike (after (handle (env.against first) .user param) a)
      (after (handle (env.against second) .user param) b) := by
  refine alike_of_refused (result_user _ param a) ?_ hclient hfirst hsecond
  rw [result_user, h]

theorem Alike.pass (h : Alike a b) (hclient : a.session.client = none) {param : Bytes}
    (hfirst : ∀ client, first.login a.state.loginName param ≠ .ok client)
    (hsecond : ∀ client, second.login a.state.loginName param ≠ .ok client) :
    Alike (after (handle (env.against first) .pass param) a)
      (after (handle (env.against second) .pass param) b) := by
  refine alike_of_refused (result_pass _ param a) ?_ hclient hfirst hsecond
  rw [result_pass, h]

end Handlers

section Step

variable {first second : AuthManagerImpl} {a b : FtpSession}

/-- Nobody is logged in and no transfer runs. -/
structure Outside (ftp : FtpSession) : Prop where
  client : ftp.session.client = none
  isLoggedIn : ftp.state.isLoggedIn = false
  transferFile : ftp.transferFile = none

theorem Alike.request {env : Env} {line : Bytes} (h : Alike a b) (houtside : Outside a)
    (hcontrol : a.control = .fetching) (hfirst : Refuses a (.request (env.against first) line))
    (hsecond : Refuses b (.request (env.against second) line)) :
    Alike (after (processRequest (env.against first) line) a)
      (after (processRequest (env.against second) line) b) := by
  have hdispatch : b.dispatch (env.against second) line = a.dispatch (env.against first) line := by
    rw [h]
    rfl
  rw [after_processRequest, after_processRequest, hdispatch]
  cases hcase : a.dispatch (env.against first) line with
  | ignore => exact (agrees_nextCommand env first second).after h
  | refuse reply => exact (agrees_controlReply env first second reply .loop).after h
  | handle cmd param =>
      have hleft := handlerOf_of_dispatch hcontrol hcase
      have hfetching : b.control = .fetching := by rw [h, hcontrol]
      have hright := handlerOf_of_dispatch hfetching (hdispatch.trans hcase)
      have hb : b.session.client = none := by rw [h, houtside.client]
      by_cases huser : cmd = .user
      · subst huser
        exact h.user houtside.client
          (hfirst.login hleft (attempt_user houtside.client rfl) (.inl rfl))
          (hsecond.login hright (attempt_user hb rfl) (.inl rfl))
      · by_cases hpass : cmd = .pass
        · subst hpass
          have hname : b.state.loginName = a.state.loginName := by rw [h]
          refine h.pass houtside.client
            (hfirst.login hleft (attempt_pass houtside.client rfl) (.inr rfl)) ?_
          rw [← hname]
          exact hsecond.login hright (attempt_pass hb rfl) (.inr rfl)
        · have hcmd : cmd.mustBeLoggedIn = false := by
            by_contra hmust
            have hin := (accepts_of_handlerOf hleft).loggedIn (by simpa using hmust)
            rw [houtside.isLoggedIn] at hin
            cases hin
          have hsame : after (handle (env.against second) cmd param) b
              = after (handle (env.against first) cmd param) a := by
            rw [h]
            unfold handle
            rw [onCmd_against hcmd huser hpass param]
            rfl
          dsimp only
          rw [hsame]
          rfl

theorem Alike.step (h : Alike a b) (houtside : Outside a) {event : Event}
    (hfirst : Refuses a (event.against first)) (hsecond : Refuses b (event.against second)) :
    Alike (a.step (event.against first)) (b.step (event.against second)) := by
  have hcontrol : b.control = a.control := by rw [h]
  have hsame {condition : Prop} [Decidable condition] {a' b' : FtpSession}
      (hother : condition → Alike a' b') :
      Alike (if condition then a' else a) (if condition then b' else b) := by
    split
    · exact hother ‹_›
    · exact h
  cases event with
  | start env =>
      change Alike (if _ then _ else _) (if _ then _ else _)
      rw [hcontrol]
      refine hsame fun _ => Agrees.after ?_ h
      exact agrees_ite (agrees_leaveLoop env first second)
        (agrees_controlReply env first second _ _)
  | request env line =>
      change Alike (if _ then _ else _) (if _ then _ else _)
      rw [hcontrol]
      exact hsame fun hfetching => h.request houtside hfetching hfirst hsecond
  | inputTooBig env =>
      change Alike (if _ then _ else _) (if _ then _ else _)
      rw [hcontrol]
      exact hsame fun _ => (agrees_controlReply env first second _ _).after h
  | noInput env =>
      change Alike (if _ then _ else _) (if _ then _ else _)
      rw [hcontrol]
      exact hsame fun _ => (agrees_leaveLoop env first second).after h
  | written env ok =>
      cases hcase : a.control with
      | replying next =>
          have hleft : a.step (.written (env.against first) ok) = _ := step_written hcase
          have hright : b.step (.written (env.against second) ok) = _ :=
            step_written (hcontrol.trans hcase)
          rw [after_bind_of_returns (returns_replyWritten _ ok)] at hleft hright
          change Alike (a.step (.written (env.against first) ok))
            (b.step (.written (env.against second) ok))
          rw [hleft, hright]
          exact (agrees_afterReply env first second next).after (alike_replyWritten env first second h ok)
      | _ =>
          simp only [Event.against, FtpSession.step, hcontrol, hcase]
          exact h
  | transfer env answer =>
      have hidle : b.transferFile = none := by rw [h, houtside.transferFile]
      change Alike (after (resume _ answer) a) (after (resume _ answer) b)
      rw [resume_of_none houtside.transferFile, resume_of_none hidle]
      exact h

end Step

section Run

variable {first second : AuthManagerImpl} {a b start : FtpSession} {past past' : List Handled}

theorem someGranted_append (h : SomeGranted past) (more : List Handled) :
    SomeGranted (past ++ more) := by
  obtain ⟨login, hlogin, hgranted⟩ := h
  exact ⟨login, List.mem_append_left more hlogin, hgranted⟩

theorem outside_of_loginInv (h : LoginInv start past a) (hnone : ¬ SomeGranted past) : Outside a := by
  have hclient : a.session.client = none :=
    Option.eq_none_iff_forall_ne_some.mpr fun client hclient =>
      hnone (h.client client hclient).someGranted
  refine ⟨hclient, ?_, h.transferFile hclient⟩
  rw [h.isLoggedIn, hclient]
  rfl

theorem refuses_of_not_someGranted {event : Event} {later : List Handled}
    (h : ¬ SomeGranted (past ++ ((a.handlerOf event).toList ++ later))) : Refuses a event := by
  intro entry hhandler name pwd client hgranted
  refine h ⟨entry, ?_, name, pwd, client, hgranted⟩
  rw [hhandler]
  simp

theorem Alike.run (h : Alike a b) (ha : LoginInv start past a) (hb : LoginInv start past' b)
    {events : List Event}
    (hfirst : ¬ SomeGranted (past ++ a.history (events.map (Event.against first))))
    (hsecond : ¬ SomeGranted (past' ++ b.history (events.map (Event.against second)))) :
    Alike (a.run (events.map (Event.against first))) (b.run (events.map (Event.against second))) := by
  induction events generalizing a b past past' with
  | nil => exact h
  | cons event events ih =>
      have houtside : Outside a :=
        outside_of_loginInv ha fun hgranted => hfirst (someGranted_append hgranted _)
      have hstep : Alike (a.step (event.against first)) (b.step (event.against second)) :=
        h.step houtside (refuses_of_not_someGranted hfirst) (refuses_of_not_someGranted hsecond)
      refine ih hstep (loginInv_step start past a _ ha) (loginInv_step start past' b _ hb) ?_ ?_
      · rw [List.append_assoc]
        exact hfirst
      · rw [List.append_assoc]
        exact hsecond

end Run

end FtpSession

section Results

/-- **Login replies.** As long as no login succeeds, the replies do not depend on the users. -/
theorem replies_against (permissions : Permissions) (disk : Disk) (segmentSize : Nat)
    (first second : AuthManagerImpl) (events : List Event)
    (hfirst : ¬ SomeGranted
      ((fresh permissions disk segmentSize).history (events.map (Event.against first))))
    (hsecond : ¬ SomeGranted
      ((fresh permissions disk segmentSize).history (events.map (Event.against second)))) :
    ((fresh permissions disk segmentSize).run (events.map (Event.against first))).replies
      = ((fresh permissions disk segmentSize).run (events.map (Event.against second))).replies := by
  have hstart : LoginInv (fresh permissions disk segmentSize) []
      (fresh permissions disk segmentSize) := by
    constructor <;> simp [fresh, SomeGranted, lastUser]
  have halike : Alike (fresh permissions disk segmentSize) (fresh permissions disk segmentSize) :=
    rfl
  rw [halike.run hstart hstart hfirst hsecond]

def joeOnly : AuthManagerImpl := AuthManagerImpl.assign {} (bytes "joe")
  ⟨bytes "joe", bytes "secret", oneMount⟩

/-- USER for a name that only one database knows, and a wrong password. -/
def wrongLogin : List Event :=
  [.start {}, .written {} true, .request {} (bytes "USER Joe"), .written {} true,
    .request {} (bytes "PASS guess"), .written {} true]

def Call.isRefused : Call → Bool
  | .login _ _ (.ok _) => false
  | _ => true

theorem replies_against_joe :
    let ftp := fresh oneMount (oneFileDisk []) 4096
    (ftp.run (wrongLogin.map (Event.against joeOnly))).replies
      = (ftp.run (wrongLogin.map (Event.against {}))).replies := by
  have hnone {handlers : List Handled}
      (h : ∀ entry ∈ handlers, ∀ call ∈ entry.calls, call.isRefused = true) :
      ¬ SomeGranted handlers := by
    rintro ⟨entry, hentry, name, pwd, client, -, hcall⟩
    cases h entry hentry _ hcall
  exact replies_against oneMount (oneFileDisk []) 4096 joeOnly {} wrongLogin
    (hnone (by decide +kernel)) (hnone (by decide +kernel))

end Results

end Wfde
