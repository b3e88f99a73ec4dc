import Wfde.Proof.StepFrame

/-!
# Nothing is done before a login

The flag in the protocol state and the client in the session go together, since only USER and PASS
change either, and both change them at once. Every handler that asks for more than a login is behind
the flag.
-/

namespace Wfde

open Effect FtpSession

def Call.IsLogin : Call → Prop
  | .login _ _ _ => True
  | _ => False

/-- A USER or PASS for which `Login` returned the client. -/
def Handled.Granted (entry : Handled) (name pwd : Bytes) (client : Client) : Prop :=
  (entry.cmd = .user ∨ entry.cmd = .pass) ∧ Call.login name pwd (.ok client) ∈ entry.calls

def SomeGranted (handlers : List Handled) : Prop :=
  ∃ login ∈ handlers, ∃ name pwd client, login.Granted name pwd client

/-- The argument of the last USER. -/
def lastUser (handlers : List Handled) : Option Bytes :=
  (handlers.filter fun entry => entry.cmd = .user).getLast?.map Handled.param

/-- The client was returned for the name that the last USER gave, and without a password unless by
PASS. -/
def LoggedInBy (handlers : List Handled) (client : Client) : Prop :=
  ∃ past login later name pwd, handlers = past ++ login :: later ∧ login.Granted name pwd client
    ∧ lastUser (past ++ [login]) = some name ∧ (login.cmd = .user → pwd = [])

/-- The login gate of a run. -/
structure LoginGate (ftp : FtpSession) (events : List Event) : Prop where
  /-- whatever is asked for comes after a login -/
  calls : ∀ past entry later, ftp.history events = past ++ entry :: later →
    ∀ call ∈ entry.calls, ¬ call.IsLogin → SomeGranted past
  /-- and so does a transfer, which works on after its command, -/
  transfer : (ftp.run events).transferFile.isSome → SomeGranted (ftp.history events)
  /-- and a change of the files -/
  disk : ¬ SomeGranted (ftp.history events) → (ftp.run events).disk = ftp.disk
  isLoggedIn : (ftp.run events).state.isLoggedIn = (ftp.run events).session.client.isSome
  client : ∀ client, (ftp.run events).session.client = some client →
    LoggedInBy (ftp.history events) client
  failed : ∀ entry ∈ ftp.history events, entry.cmd = .user ∨ entry.cmd = .pass →
    (∀ name pwd client, ¬ entry.Granted name pwd client) →
      entry.after.session.client = entry.before.session.client
        ∧ entry.after.session.permissions = entry.before.session.permissions
  once : ∀ past entry later, ftp.history events = past ++ entry :: later →
    entry.cmd = .user ∨ entry.cmd = .pass → ¬ SomeGranted past

section Handlers

/-- The handlers that need no login ask for none but logins, start no transfer and leave the files
alone. -/
structure OnlyLogins (before after : FtpSession) : Prop where
  calls : ∃ logins, after.calls = before.calls ++ logins ∧ ∀ call ∈ logins, call.IsLogin
  transferFile : after.transferFile = before.transferFile
  disk : after.disk = before.disk

instance : Std.Refl OnlyLogins := ⟨fun _ => ⟨⟨[], by simp⟩, rfl, rfl⟩⟩

instance : IsTrans FtpSession OnlyLogins where
  trans _ _ _ := by
    rintro ⟨⟨first, hfirst, hfirstLogins⟩, hab, hab'⟩ ⟨⟨second, hsecond, hsecondLogins⟩, hbc, hbc'⟩
    refine ⟨⟨first ++ second, by rw [hsecond, hfirst, List.append_assoc], ?_⟩, hbc.trans hab,
      hbc'.trans hab'⟩
    intro call hcall
    exact (List.mem_append.mp hcall).elim (hfirstLogins call) (hsecondLogins call)

theorem onlyLogins_modifyState (f : FtpState → FtpState) : Keeps OnlyLogins (modifyState f) :=
  keeps_modifyState fun _ => ⟨⟨[], by simp⟩, rfl, rfl⟩

theorem onlyLogins_getState : Keeps OnlyLogins getState :=
  keeps_bind keeps_get fun _ => keeps_pure _

theorem onlyLogins_tryLogin (env : Env) (pwd : Bytes) (refused : FtpReplyCodes) :
    Keeps OnlyLogins (tryLogin env pwd refused) := by
  have hlogin (name : Bytes) : Keeps OnlyLogins (authenticateWithPasswd env name pwd) := by
    refine keeps_bind keeps_get fun ftp => ?_
    have hrest : Keeps OnlyLogins (do
        let result ← lift (ftp.session.authenticateWithPasswd env.login name pwd)
        modify fun ftp : FtpSession => { ftp with session := result.2 }
        return result.1) := by
      refine keeps_bind (keeps_lift _) fun result => ?_
      exact keeps_bind (keeps_modify fun _ => ⟨⟨[], by simp⟩, rfl, rfl⟩) fun _ => keeps_pure _
    refine keeps_ite (keeps_bind (keeps_modify fun ftp => ?_) fun _ => hrest) hrest
    exact ⟨⟨[_], rfl, fun call hcall => by rw [List.mem_singleton.mp hcall]; trivial⟩, rfl, rfl⟩
  refine keeps_bind onlyLogins_getState fun state => keeps_bind (hlogin _) fun accepted => ?_
  exact keeps_ite (keeps_bind (onlyLogins_modifyState _) fun _ => keeps_pure _) (keeps_pure _)

theorem onlyLogins_onCmd {cmd : FtpCmd} (hcmd : cmd.mustBeLoggedIn = false) (env : Env)
    (param : Bytes) : Keeps OnlyLogins (cmd.onCmd env param) := by
  cases cmd with
  | user => exact keeps_bind (onlyLogins_modifyState _) fun _ => onlyLogins_tryLogin env _ _
  | pass => exact onlyLogins_tryLogin env _ _
  | feat => exact keeps_bind onlyLogins_getState fun _ => keeps_pure _
  | quit | syst | noop | pbsz => exact keeps_pure _
  | type | abor | prot => exact keeps_bind (onlyLogins_modifyState _) fun _ => keeps_pure _
  | auth =>
      refine keeps_bind onlyLogins_getState fun state => keeps_ite (keeps_pure _) ?_
      exact keeps_bind (onlyLogins_modifyState _) fun _ => keeps_pure _
  | _ => exact absurd hcmd (by decide)

section Attempt

variable (env : Env) {ftp : FtpSession} (hclient : ftp.session.client = none)
include hclient

theorem authenticateWithPasswd_run (name pwd : Bytes) :
    (FtpSession.authenticateWithPasswd env name pwd).run ftp
      = match ftp.session.authenticateWithPasswd env.login name pwd with
        | .ok (accepted, session) => .ok accepted { ftp with
            calls := ftp.calls ++ [.login name pwd (env.login name pwd)], session }
        | .error e => .error e { ftp with
            calls := ftp.calls ++ [.login name pwd (env.login name pwd)] } := by
  unfold FtpSession.authenticateWithPasswd
  rw [EStateM.run_bind, EStateM.run_get]
  simp only [hclient, Option.isNone_none, if_true]
  have hnote : (note (.login name pwd (env.login name pwd))).run ftp
      = .ok () { ftp with calls := ftp.calls ++ [.login name pwd (env.login name pwd)] } := rfl
  rw [EStateM.run_bind, hnote]
  cases ftp.session.authenticateWithPasswd env.login name pwd with
  | ok result => rfl
  | error e => rfl

theorem authenticateWithPasswd_of_ok {name pwd : Bytes} {client : Client}
    (hlogin : env.login name pwd = .ok client) :
    ∃ session, ftp.session.authenticateWithPasswd env.login name pwd = .ok (true, session)
      ∧ session.client = some client := by
  unfold Session.authenticateWithPasswd
  rw [if_neg (by simp [hclient]), hlogin]
  exact ⟨_, rfl, rfl⟩

theorem authenticateWithPasswd_of_error {name pwd : Bytes} {e : Exception}
    (hlogin : env.login name pwd = .error e) :
    ftp.session.authenticateWithPasswd env.login name pwd = .ok (false, ftp.session)
      ∨ ftp.session.authenticateWithPasswd env.login name pwd = .error e := by
  unfold Session.authenticateWithPasswd
  rw [if_neg (by simp [hclient]), hlogin]
  cases e with
  | badCredentials | needPasswd | notFound => exact .inl rfl
  | _ => exact .inr rfl

theorem after_tryLogin_of_ok (refused : FtpReplyCodes) {pwd : Bytes} {client : Client}
    (hlogin : env.login ftp.state.loginName pwd = .ok client) :
    ∃ session, session.client = some client ∧ after (tryLogin env pwd refused) ftp
      = { ftp with
          calls := ftp.calls ++ [.login ftp.state.loginName pwd (.ok client)]
          session
          state := { ftp.state with isLoggedIn := true } } := by
  have hstate : getState.run ftp = .ok ftp.state ftp := rfl
  obtain ⟨session, hresult, hsession⟩ := authenticateWithPasswd_of_ok env hclient hlogin
  have hrun := authenticateWithPasswd_run env hclient ftp.state.loginName pwd
  rw [hresult, hlogin] at hrun
  refine ⟨session, hsession, ?_⟩
  unfold tryLogin
  rw [after_bind_of_ok hstate, after_bind_of_ok hrun]
  rfl

theorem after_tryLogin_of_error (refused : FtpReplyCodes) {pwd : Bytes} {e : Exception}
    (hlogin : env.login ftp.state.loginName pwd = .error e) :
    after (tryLogin env pwd refused) ftp
      = { ftp with calls := ftp.calls ++ [.login ftp.state.loginName pwd (.error e)] } := by
  have hstate : getState.run ftp = .ok ftp.state ftp := rfl
  have hrun := authenticateWithPasswd_run env hclient ftp.state.loginName pwd
  unfold tryLogin
  rw [after_bind_of_ok hstate]
  rcases authenticateWithPasswd_of_error env hclient hlogin with hresult | hresult
  · rw [hresult, hlogin] at hrun
    rw [after_bind_of_ok hrun]
    rfl
  · rw [hresult, hlogin] at hrun
    rw [after_bind, hrun]

end Attempt

/-- What a USER or PASS handler does for a client that is not logged in. -/
structure Attempt (entry : Handled) (name pwd : Bytes) : Prop where
  calls : entry.calls = [.login name pwd (entry.env.login name pwd)]
  loginName : entry.after.state.loginName = name
  accepted : ∀ client, entry.env.login name pwd = .ok client →
    entry.after.session.client = some client ∧ entry.after.state.isLoggedIn = true
  refused : ∀ e, entry.env.login name pwd = .error e →
    entry.after.session = entry.before.session
      ∧ entry.after.state.isLoggedIn = entry.before.state.isLoggedIn

section Attempt

variable {entry : Handled} (hclient : entry.before.session.client = none)
include hclient

theorem attempt_of_tryLogin (ftp : FtpSession) {pwd : Bytes} {refused : FtpReplyCodes}
    (hsession : ftp.session = entry.before.session) (hcalls : ftp.calls = [])
    (hflag : ftp.state.isLoggedIn = entry.before.state.isLoggedIn)
    (h : entry.after = after (tryLogin entry.env pwd refused) ftp) :
    Attempt entry ftp.state.loginName pwd := by
  have hnone : ftp.session.client = none := by rw [hsession, hclient]
  cases hlogin : entry.env.login ftp.state.loginName pwd with
  | ok client =>
      obtain ⟨session, hsome, hafter⟩ := after_tryLogin_of_ok entry.env hnone refused hlogin
      rw [hafter] at h
      refine ⟨?_, by rw [h], ?_, by simp [hlogin]⟩
      · rw [Handled.calls, h, hcalls, hlogin]
        rfl
      · intro granted hgranted
        obtain rfl := Except.ok.inj (hlogin.symm.trans hgranted)
        rw [h]
        exact ⟨hsome, rfl⟩
  | error e =>
      rw [after_tryLogin_of_error entry.env hnone refused hlogin] at h
      refine ⟨?_, by rw [h], by simp [hlogin], ?_⟩
      · rw [Handled.calls, h, hcalls, hlogin]
        rfl
      · intro _ _
        rw [h]
        exact ⟨hsession, hflag⟩

theorem attempt_user (hcmd : entry.cmd = .user) : Attempt entry entry.param [] := by
  let stored := { entry.start with state := { entry.start.state with loginName := entry.param } }
  have hafter : entry.after = after (tryLogin entry.env [] .needPasswd) stored := by
    rw [Handled.after, hcmd]
    change after (FtpCmdUser.onCmd entry.env entry.param) entry.start = _
    unfold FtpCmdUser.onCmd
    rw [after_bind_of_returns (returns_modifyState _)]
    rfl
  exact attempt_of_tryLogin hclient stored rfl rfl rfl hafter

theorem attempt_pass (hcmd : entry.cmd = .pass) :
    Attempt entry entry.before.state.loginName entry.param := by
  have hafter : entry.after = after (tryLogin entry.env entry.param .notLoggedOn) entry.start := by
    rw [Handled.after, hcmd]
    rfl
  exact attempt_of_tryLogin hclient entry.start rfl rfl rfl hafter

theorem exists_attempt (hcmd : entry.cmd = .user ∨ entry.cmd = .pass) :
    ∃ name pwd, Attempt entry name pwd :=
  hcmd.elim (fun hcmd => ⟨_, _, attempt_user hclient hcmd⟩)
    fun hcmd => ⟨_, _, attempt_pass hclient hcmd⟩

end Attempt

theorem Attempt.granted_iff {entry : Handled} {name pwd : Bytes} (h : Attempt entry name pwd)
    (hcmd : entry.cmd = .user ∨ entry.cmd = .pass) {name' pwd' : Bytes} {client : Client} :
    entry.Granted name' pwd' client
      ↔ name' = name ∧ pwd' = pwd ∧ entry.env.login name pwd = .ok client := by
  rw [Handled.Granted, h.calls, List.mem_singleton]
  constructor
  · rintro ⟨-, hcall⟩
    obtain ⟨rfl, rfl, hlogin⟩ := Call.login.inj hcall
    exact ⟨rfl, rfl, hlogin.symm⟩
  · rintro ⟨rfl, rfl, hlogin⟩
    exact ⟨hcmd, by rw [hlogin]⟩

end Handlers

section Runs

variable {start ftp : FtpSession} {past : List Handled}

/-- What a run keeps, up to every handler that has been called. -/
structure LoginInv (start : FtpSession) (past : List Handled) (ftp : FtpSession) : Prop where
  isLoggedIn : ftp.state.isLoggedIn = ftp.session.client.isSome
  client : ∀ client, ftp.session.client = some client → LoggedInBy past client
  granted : SomeGranted past → ftp.session.client.isSome = true
  transferFile : ftp.session.client = none → ftp.transferFile = none
  disk : ftp.session.client = none → ftp.disk = start.disk
  loginName : ∀ name, lastUser past = some name → ftp.state.loginName = name
  prevCmd : ∀ cmd, ftp.prevCmdName = some cmd → ∃ entry ∈ past, entry.cmd = cmd

theorem LoggedInBy.append {client : Client} (h : LoggedInBy past client) (more : List Handled) :
    LoggedInBy (past ++ more) client := by
  obtain ⟨front, login, later, name, pwd, rfl, hgranted, huser, hpwd⟩ := h
  exact ⟨front, login, later ++ more, name, pwd, by simp, hgranted, huser, hpwd⟩

theorem LoggedInBy.someGranted {client : Client} (h : LoggedInBy past client) :
    SomeGranted past := by
  obtain ⟨front, login, later, name, pwd, rfl, hgranted, -, -⟩ := h
  exact ⟨login, by simp, name, pwd, client, hgranted⟩

theorem someGranted_concat {entry : Handled} :
    SomeGranted (past ++ [entry])
      ↔ SomeGranted past ∨ ∃ name pwd client, entry.Granted name pwd client := by
  simp [SomeGranted, or_and_right, exists_or]

theorem lastUser_concat_user {entry : Handled} (hcmd : entry.cmd = .user) :
    lastUser (past ++ [entry]) = some entry.param := by
  simp [lastUser, hcmd]

theorem lastUser_concat_of_ne {entry : Handled} (hcmd : entry.cmd ≠ .user) :
    lastUser (past ++ [entry]) = lastUser past := by
  simp [lastUser, hcmd]

theorem exists_lastUser (h : ∃ entry ∈ past, entry.cmd = .user) :
    ∃ name, lastUser past = some name := by
  obtain ⟨entry, hentry, hcmd⟩ := h
  have hne : past.filter (fun entry => entry.cmd = .user) ≠ [] :=
    List.ne_nil_of_mem (List.mem_filter.mpr ⟨hentry, by simpa using hcmd⟩)
  exact ⟨_, by rw [lastUser, List.getLast?_eq_some_getLast hne]; rfl⟩

theorem prevCmd_concat {entry : Handled} {prev : Option FtpCmd}
    (h : LoginInv start past entry.before)
    (hprev : prev = entry.cmd ∨ prev = entry.before.prevCmdName) (cmd : FtpCmd)
    (hcmd : prev = some cmd) : ∃ last ∈ past ++ [entry], last.cmd = cmd := by
  rcases hprev with rfl | rfl
  · exact ⟨entry, by simp, Option.some.inj hcmd⟩
  · obtain ⟨last, hlast, hname⟩ := h.prevCmd cmd hcmd
    exact ⟨last, by simp [hlast], hname⟩

theorem step_idle {event : Event} (h : ftp.handlerOf event = none) (hnone : ftp.transferFile = none) :
    (ftp.step event).transferFile = none ∧ (ftp.step event).disk = ftp.disk := by
  rcases sameLoop_frame.step_other h with hloop | ⟨env, ok, next, -, hloop⟩ | ⟨env, answer, -, hstep⟩
  · exact ⟨hloop.transferFile.trans hnone, hloop.disk⟩
  · have hwork := hloop.work.trans (work_replyWritten env ok ftp)
    exact ⟨(congrArg Work.transferFile hwork).trans hnone, congrArg Work.disk hwork⟩
  · rw [hstep, resume_of_none hnone]
    exact ⟨hnone, rfl⟩

theorem LoginInv.congr {after : FtpSession} (h : LoginInv start past ftp)
    (hsame : after.identity = ftp.identity)
    (hidle : ftp.session.client = none → after.transferFile = none ∧ after.disk = ftp.disk) :
    LoginInv start past after := by
  have hclient : after.session.client = ftp.session.client := congrArg Identity.client hsame
  constructor
  · rw [hclient, ← h.isLoggedIn]
    exact congrArg Identity.isLoggedIn hsame
  · rw [hclient]
    exact h.client
  · rw [hclient]
    exact h.granted
  · intro hno
    exact (hidle (hclient.symm.trans hno)).1
  · intro hno
    rw [hclient] at hno
    exact (hidle hno).2.trans (h.disk hno)
  · intro name hname
    exact (congrArg Identity.loginName hsame).trans (h.loginName name hname)
  · intro cmd hcmd
    exact h.prevCmd cmd ((congrArg Identity.prevCmdName hsame).symm.trans hcmd)

theorem LoginInv.other {entry : Handled} {prev : Option FtpCmd} (h : LoginInv start past entry.before)
    (huser : entry.cmd ≠ .user) (hpass : entry.cmd ≠ .pass)
    (haccepts : Accepts entry.before entry.cmd)
    (hprev : prev = entry.cmd ∨ prev = entry.before.prevCmdName) :
    LoginInv start (past ++ [entry]) { entry.after with prevCmdName := prev } := by
  have hleaves := keeps_onCmd entry.env entry.param entry.cmd entry.start
  have hclient : entry.after.session.client = entry.before.session.client :=
    hleaves.client huser hpass
  have honly (hno : entry.after.session.client = none) :
      OnlyLogins entry.start entry.after := by
    refine onlyLogins_onCmd ?_ entry.env entry.param entry.start
    by_contra hmust
    have hflag := haccepts.loggedIn (by simpa using hmust)
    rw [h.isLoggedIn, ← hclient, hno] at hflag
    cases hflag
  constructor
  · change _ = entry.after.session.client.isSome
    rw [hclient, ← h.isLoggedIn]
    exact hleaves.isLoggedIn huser hpass
  · intro client hsome
    exact (h.client client (hclient.symm.trans hsome)).append [entry]
  · intro hgranted
    change entry.after.session.client.isSome = true
    rw [hclient]
    apply (someGranted_concat.mp hgranted).elim h.granted
    rintro ⟨-, -, -, hcmd, -⟩
    exact absurd hcmd (by simp [huser, hpass])
  · intro hno
    exact (honly hno).transferFile.trans (h.transferFile (hclient.symm.trans hno))
  · intro hno
    exact (honly hno).disk.trans (h.disk (hclient.symm.trans hno))
  · intro name hname
    rw [lastUser_concat_of_ne huser] at hname
    exact (hleaves.loginName huser hpass).trans (h.loginName name hname)
  · exact prevCmd_concat h hprev

/-- An attempt is made by a client that is not logged in, and logs it in or leaves everything. -/
theorem LoginInv.attempt {entry : Handled} {prev : Option FtpCmd} {name pwd : Bytes}
    (h : LoginInv start past entry.before) (hattempt : Attempt entry name pwd)
    (hcmd : entry.cmd = .user ∨ entry.cmd = .pass) (hclient : entry.before.session.client = none)
    (huser : lastUser (past ++ [entry]) = some name) (hpwd : entry.cmd = .user → pwd = [])
    (hprev : prev = entry.cmd ∨ prev = entry.before.prevCmdName) :
    LoginInv start (past ++ [entry]) { entry.after with prevCmdName := prev } := by
  have honly : OnlyLogins entry.start entry.after :=
    onlyLogins_onCmd (by rcases hcmd with hcmd | hcmd <;> rw [hcmd] <;> rfl) entry.env entry.param
      entry.start
  have hlogin : (∃ client, entry.env.login name pwd = .ok client
        ∧ entry.after.session.client = some client ∧ entry.after.state.isLoggedIn = true)
      ∨ (∀ name' pwd' client, ¬ entry.Granted name' pwd' client)
        ∧ entry.after.session.client = none ∧ entry.after.state.isLoggedIn = false := by
    cases hresult : entry.env.login name pwd with
    | ok client => exact .inl ⟨client, rfl, hattempt.accepted client hresult⟩
    | error e =>
        obtain ⟨hsession, hflag⟩ := hattempt.refused e hresult
        refine .inr ⟨fun name' pwd' client hgranted => ?_, by rw [hsession, hclient], ?_⟩
        · obtain ⟨-, -, hok⟩ := (hattempt.granted_iff hcmd).mp hgranted
          rw [hresult] at hok
          cases hok
        · rw [hflag, h.isLoggedIn, hclient]
          rfl
  constructor
  · change entry.after.state.isLoggedIn = entry.after.session.client.isSome
    rcases hlogin with ⟨client, -, hsome, hflag⟩ | ⟨-, hno, hflag⟩
    · rw [hsome, hflag]
      rfl
    · rw [hno, hflag]
      rfl
  · intro client hsome
    replace hsome : entry.after.session.client = some client := hsome
    rcases hlogin with ⟨granted, hok, hgranted, -⟩ | ⟨-, hno, -⟩
    · obtain rfl : granted = client := Option.some.inj (hgranted.symm.trans hsome)
      exact ⟨past, entry, [], name, pwd, rfl, (hattempt.granted_iff hcmd).mpr ⟨rfl, rfl, hok⟩, huser,
        hpwd⟩
    · rw [hno] at hsome
      cases hsome
  · intro hgranted
    change entry.after.session.client.isSome = true
    rcases hlogin with ⟨client, -, hsome, -⟩ | ⟨hrefused, -, -⟩
    · rw [hsome]
      rfl
    · rcases someGranted_concat.mp hgranted with hpast | ⟨name', pwd', client, hlast⟩
      · have hsome := h.granted hpast
        rw [hclient] at hsome
        cases hsome
      · exact absurd hlast (hrefused name' pwd' client)
  · exact fun _ => honly.transferFile.trans (h.transferFile hclient)
  · exact fun _ => honly.disk.trans (h.disk hclient)
  · intro last hlast
    rw [huser] at hlast
    exact hattempt.loginName.trans (Option.some.inj hlast)
  · exact prevCmd_concat h hprev

theorem LoginInv.client_eq_none {entry : Handled} (h : LoginInv start past entry.before)
    (hcmd : entry.cmd = .user ∨ entry.cmd = .pass) (haccepts : Accepts entry.before entry.cmd) :
    entry.before.session.client = none := by
  have hflag := haccepts.notLoggedIn (by rcases hcmd with hcmd | hcmd <;> rw [hcmd] <;> rfl)
  rwa [h.isLoggedIn, Option.isSome_eq_false_iff, Option.isNone_iff_eq_none] at hflag

theorem LoginInv.handled {entry : Handled} {prev : Option FtpCmd}
    (h : LoginInv start past entry.before) (haccepts : Accepts entry.before entry.cmd)
    (hprev : prev = entry.cmd ∨ prev = entry.before.prevCmdName) :
    LoginInv start (past ++ [entry]) { entry.after with prevCmdName := prev } := by
  by_cases huser : entry.cmd = .user
  · have hclient := h.client_eq_none (.inl huser) haccepts
    exact h.attempt (attempt_user hclient huser) (.inl huser) hclient (lastUser_concat_user huser)
      (fun _ => rfl) hprev
  · by_cases hpass : entry.cmd = .pass
    · have hclient := h.client_eq_none (.inr hpass) haccepts
      -- PASS comes right behind a USER, so the stored name is the one that was given last
      have hbehind := h.prevCmd .user (haccepts.prevCmd .user (by rw [hpass]; rfl))
      obtain ⟨name, hname⟩ := exists_lastUser hbehind
      have hstored : lastUser (past ++ [entry]) = some entry.before.state.loginName := by
        rw [lastUser_concat_of_ne huser, hname, h.loginName name hname]
      exact h.attempt (attempt_pass hclient hpass) (.inr hpass) hclient hstored
        (fun hcmd => absurd hcmd huser) hprev
    · exact h.other huser hpass haccepts hprev

theorem loginInv_step (start : FtpSession) (past : List Handled) (ftp : FtpSession) (event : Event)
    (h : LoginInv start past ftp) :
    LoginInv start (past ++ (ftp.handlerOf event).toList) (ftp.step event) := by
  cases hhandler : ftp.handlerOf event with
  | none =>
      rw [Option.toList_none, List.append_nil]
      exact h.congr (identity_step hhandler) fun hno => step_idle hhandler (h.transferFile hno)
  | some entry =>
      rw [Option.toList_some]
      obtain ⟨line, -, hbefore, -, -⟩ := handlerOf_eq_some hhandler
      have haccepts := accepts_of_handlerOf hhandler
      rw [← hbefore] at h haccepts
      obtain ⟨prev, hloop, hprev⟩ := sameLoop_frame.of_handlerOf hhandler
      have hended := h.handled haccepts hprev
      refine hended.congr hloop.identity fun hno => ⟨?_, hloop.disk⟩
      exact hloop.transferFile.trans (hended.transferFile hno)

/-- Every handler of a run is called in a state that the handlers before it led to. -/
theorem loginInv_of_history_eq (hstart : LoginInv start [] start) {events : List Event}
    {entry : Handled} {later : List Handled}
    (h : start.history events = past ++ entry :: later) :
    LoginInv start past entry.before ∧ Accepts entry.before entry.cmd := by
  obtain ⟨front, event, -, -, hpast, hhandler⟩ := exists_of_history_eq h
  obtain ⟨line, -, hbefore, -, -⟩ := handlerOf_eq_some hhandler
  rw [hbefore, ← hpast]
  exact ⟨history_induction (LoginInv start) (loginInv_step start) hstart front,
    accepts_of_handlerOf hhandler⟩

end Runs

/-- **Nothing is done for a client that has not logged in.** -/
theorem loginGate (permissions : Permissions) (disk : Disk) (segmentSize : Nat)
    (events : List Event) : LoginGate (fresh permissions disk segmentSize) events := by
  have hstart : LoginInv (fresh permissions disk segmentSize) []
      (fresh permissions disk segmentSize) := by
    constructor <;> simp [fresh, SomeGranted, lastUser]
  have hend := history_induction (LoginInv (fresh permissions disk segmentSize))
    (loginInv_step _) hstart events
  have hnobody (hnone : ¬ SomeGranted ((fresh permissions disk segmentSize).history events)) :
      ((fresh permissions disk segmentSize).run events).session.client = none := by
    refine Option.eq_none_iff_forall_ne_some.mpr fun client hclient => ?_
    exact hnone (hend.client client hclient).someGranted
  constructor
  · intro past entry later hhistory call hcall hlogin
    obtain ⟨hinv, haccepts⟩ := loginInv_of_history_eq hstart hhistory
    by_contra hnone
    have hmust : entry.cmd.mustBeLoggedIn = false := by
      by_contra hmust
      have hflag := haccepts.loggedIn (by simpa using hmust)
      rw [hinv.isLoggedIn] at hflag
      obtain ⟨client, hclient⟩ := Option.isSome_iff_exists.mp hflag
      exact hnone (hinv.client client hclient).someGranted
    obtain ⟨logins, hcalls, hlogins⟩ :=
      (onlyLogins_onCmd hmust entry.env entry.param entry.start).calls
    rw [Handled.calls, Handled.after, hcalls] at hcall
    exact hlogin (hlogins call hcall)
  · intro htransfer
    by_contra hnone
    rw [hend.transferFile (hnobody hnone)] at htransfer
    cases htransfer
  · exact fun hnone => hend.disk (hnobody hnone)
  · exact hend.isLoggedIn
  · exact hend.client
  · intro entry hentry hcmd hrefused
    obtain ⟨past, later, hhistory⟩ := List.append_of_mem hentry
    obtain ⟨hinv, haccepts⟩ := loginInv_of_history_eq hstart hhistory
    obtain ⟨name, pwd, hattempt⟩ := exists_attempt (hinv.client_eq_none hcmd haccepts) hcmd
    cases hresult : entry.env.login name pwd with
    | ok client =>
        have hgranted := (hattempt.granted_iff hcmd).mpr ⟨rfl, rfl, hresult⟩
        exact absurd hgranted (hrefused name pwd client)
    | error e =>
        obtain ⟨hsession, -⟩ := hattempt.refused e hresult
        exact ⟨by rw [hsession], by rw [hsession]⟩
  · intro past entry later hhistory hcmd hgranted
    obtain ⟨hinv, haccepts⟩ := loginInv_of_history_eq hstart hhistory
    have hsome := hinv.granted hgranted
    rw [hinv.client_eq_none hcmd haccepts] at hsome
    cases hsome

end Wfde
