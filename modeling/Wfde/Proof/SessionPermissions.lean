import Wfde.Proof.Login

/-!
# The permissions of a session

A session starts with the permissions of its interface. The one login that succeeds puts the client's
on top of them, and nothing else ever changes them.
-/

namespace Wfde

open Effect FtpSession

/-- What a client's permissions make of those of the interface. -/
def Client.effective (client : Client) (base : Permissions) : Permissions :=
  match client.permissions with
  | some perms => perms.copy.merge base
  | none => base

/-- A request for a command with a parameter. -/
def Event.Asks (event : Event) (cmd : FtpCmd) (param : Bytes) : Prop :=
  ∃ env line, event = .request env line ∧ getFtpCommand line = .ok cmd ∧ paramOf cmd line = param

/-- A request in which `Login` lets the client in: USER with a name that needs no password, or PASS
with the password for a name that has been given. -/
def Event.Accepts (event : Event) (given : Bytes → Prop) (client : Client) : Prop :=
  ∃ env line name pwd, event = .request env line ∧ env.login name pwd = .ok client
    ∧ (event.Asks .user name ∧ pwd = [] ∨ event.Asks .pass pwd ∧ given name)

theorem Event.Accepts.imp {event : Event} {given given' : Bytes → Prop} {client : Client}
    (h : event.Accepts given client) (himp : ∀ name, given name → given' name) :
    event.Accepts given' client := by
  obtain ⟨env, line, name, pwd, hevent, hlogin, hhow⟩ := h
  exact ⟨env, line, name, pwd, hevent, hlogin,
    hhow.imp_right fun hpass => ⟨hpass.1, himp name hpass.2⟩⟩

/-- A request that lets the client in, behind the USER that gave its name if it is a PASS. -/
def LetsIn (past : List Event) (event : Event) (client : Client) : Prop :=
  event.Accepts (fun name => ∃ user ∈ past, user.Asks .user name) client

namespace FtpSession

variable {ftp : FtpSession}

theorem session_tryLogin (env : Env) (pwd : Bytes) (refused : FtpReplyCodes) (ftp : FtpSession) :
    (after (tryLogin env pwd refused) ftp).session = ftp.session
      ∨ ftp.session.client = none ∧ ∃ client, env.login ftp.state.loginName pwd = .ok client
        ∧ (after (tryLogin env pwd refused) ftp).session
          = { ftp.session with
              permissions := client.effective ftp.session.permissions, client := some client } := by
  have hstate : getState.run ftp = .ok ftp.state ftp := rfl
  unfold tryLogin
  rw [after_bind_of_ok hstate]
  cases hclient : ftp.session.client with
  | some client =>
      have hrun : (FtpSession.authenticateWithPasswd env ftp.state.loginName pwd).run ftp
          = .error .alreadyLoggedIn ftp := by
        unfold FtpSession.authenticateWithPasswd Session.authenticateWithPasswd
        rw [EStateM.run_bind, EStateM.run_get]
        simp only [hclient]
        rfl
      rw [after_bind, hrun]
      exact .inl rfl
  | none =>
      have hrun := authenticateWithPasswd_run env hclient ftp.state.loginName pwd
      cases hlogin : env.login ftp.state.loginName pwd with
      | ok client =>
          have haccepted : ftp.session.authenticateWithPasswd env.login ftp.state.loginName pwd
              = .ok (true, { ftp.session with
                  permissions := client.effective ftp.session.permissions
                  client := some client }) := by
            unfold Session.authenticateWithPasswd
            rw [if_neg (by simp [hclient]), hlogin]
            rfl
          rw [haccepted] at hrun
          refine .inr ⟨rfl, client, rfl, ?_⟩
          rw [after_bind_of_ok hrun]
          rfl
      | error e =>
          rcases authenticateWithPasswd_of_error env hclient hlogin with hrefused | hrefused
          · rw [hrefused] at hrun
            rw [after_bind_of_ok hrun]
            exact .inl rfl
          · rw [hrefused] at hrun
            rw [after_bind, hrun]
            exact .inl rfl

/-- USER stores the name, and both then try to log in. -/
theorem exists_tryLogin {entry : Handled} (hcmd : entry.cmd = .user ∨ entry.cmd = .pass) :
    ∃ start pwd refused, entry.after = after (tryLogin entry.env pwd refused) start
      ∧ start.session = entry.before.session
      ∧ (entry.cmd = .user ∧ pwd = [] ∧ start.state.loginName = entry.param
        ∨ entry.cmd = .pass ∧ pwd = entry.param
          ∧ start.state.loginName = entry.before.state.loginName) := by
  rcases hcmd with hcmd | hcmd
  · let stored := { entry.start with state := { entry.start.state with loginName := entry.param } }
    refine ⟨stored, [], .needPasswd, ?_, rfl, .inl ⟨hcmd, rfl, rfl⟩⟩
    rw [Handled.after, hcmd]
    change after (FtpCmdUser.onCmd entry.env entry.param) entry.start = _
    unfold FtpCmdUser.onCmd
    rw [after_bind_of_returns (returns_modifyState _)]
    rfl
  · refine ⟨entry.start, entry.param, .notLoggedOn, ?_, rfl, .inr ⟨hcmd, rfl, rfl⟩⟩
    rw [Handled.after, hcmd]
    rfl

def SameName (before after : FtpSession) : Prop :=
  after.state.loginName = before.state.loginName

instance : Std.Refl SameName := ⟨fun _ => rfl⟩

instance : IsTrans FtpSession SameName := ⟨fun _ _ _ hab hbc => hbc.trans hab⟩

theorem sameName_pass : Frame SameName .pass where
  calls _ _ := rfl
  state _ _ hupdates := by cases hupdates <;> rfl
  disk _ _ _ := rfl
  login _ _ _ := rfl
  cwd _ _ _ := rfl
  start hstarts := by cases hstarts

theorem asks_of_handlerOf {event : Event} {entry : Handled} (h : ftp.handlerOf event = some entry) :
    event.Asks entry.cmd entry.param := by
  obtain ⟨line, hevent, -, -, hdispatch⟩ := handlerOf_eq_some h
  obtain ⟨hcmd, -, -, hparam, -⟩ := dispatch_eq_handle hdispatch
  exact ⟨entry.env, line, hevent, hcmd, hparam.symm⟩

/-- Behind USER, the name is what that USER gave. -/
theorem loginName_step (event : Event) (h : (ftp.step event).prevCmdName = some .user) :
    event.Asks .user (ftp.step event).state.loginName
      ∨ ftp.prevCmdName = some .user ∧ (ftp.step event).state.loginName = ftp.state.loginName := by
  cases hhandler : ftp.handlerOf event with
  | none =>
      have hsame := identity_step hhandler
      exact .inr ⟨(congrArg Identity.prevCmdName hsame).symm.trans h,
        congrArg Identity.loginName hsame⟩
  | some entry =>
      have hasks := asks_of_handlerOf hhandler
      obtain ⟨prev, hloop, hprev⟩ := sameLoop_frame.of_handlerOf hhandler
      have hname : (ftp.step event).state.loginName = entry.after.state.loginName :=
        congrArg Identity.loginName hloop.identity
      have hstored : prev = some .user :=
        (congrArg Identity.prevCmdName hloop.identity).symm.trans h
      have hbefore := (handlerOf_eq_some hhandler).choose_spec.2.1
      rw [hname]
      by_cases hlogin : entry.cmd = .user ∨ entry.cmd = .pass
      · obtain ⟨start, pwd, refused, hafter, -, hwhich⟩ := exists_tryLogin hlogin
        have hkept : SameName start entry.after := by
          rw [hafter]
          exact sameName_pass.tryLogin (.inr rfl) entry.env pwd refused start
        rcases hwhich with ⟨hcmd, -, hparam⟩ | ⟨hcmd, -, hparam⟩
        · rw [hkept, hparam, ← hcmd]
          exact .inl hasks
        · rcases hprev with hprev | hprev
          · rw [hstored, hcmd] at hprev
            cases hprev
          · rw [← hprev.symm.trans hstored, hkept, hparam, hbefore]
            exact .inr ⟨rfl, rfl⟩
      · rw [not_or] at hlogin
        have hleaves := keeps_onCmd entry.env entry.param entry.cmd entry.start
        rcases hprev with hprev | hprev
        · exact absurd (Option.some.inj (hprev.symm.trans hstored)) hlogin.1
        · refine .inr ⟨?_, (hleaves.loginName hlogin.1 hlogin.2).trans ?_⟩
          · rw [← hbefore, ← hprev, hstored]
          · rw [← hbefore]
            rfl

/-- Nobody has logged in. -/
structure SameLogin (before after : FtpSession) : Prop where
  client : after.session.client = before.session.client
  permissions : after.session.permissions = before.session.permissions

/-- A login that succeeds, under the name that the last USER gave. -/
structure LogsIn (event : Event) (before after : FtpSession) (accepted : Client) : Prop where
  nobody : before.session.client = none
  request : event.Accepts
    (fun name => before.prevCmdName = some .user ∧ before.state.loginName = name) accepted
  client : after.session.client = some accepted
  permissions : after.session.permissions = accepted.effective before.session.permissions

/-- **What a step does to the permissions.** -/
theorem permissions_step (ftp : FtpSession) (event : Event) :
    SameLogin ftp (ftp.step event) ∨ ∃ client, LogsIn event ftp (ftp.step event) client := by
  cases hhandler : ftp.handlerOf event with
  | none =>
      have hsame := identity_step hhandler
      exact .inl ⟨congrArg Identity.client hsame, congrArg Identity.permissions hsame⟩
  | some entry =>
      have hasks := asks_of_handlerOf hhandler
      have haccepts := accepts_of_handlerOf hhandler
      obtain ⟨line, rfl, rfl, -, -⟩ := handlerOf_eq_some hhandler
      obtain ⟨prev, hloop, -⟩ := sameLoop_frame.of_handlerOf hhandler
      have hclient : (entry.before.step (.request entry.env line)).session.client
          = entry.after.session.client := congrArg Identity.client hloop.identity
      have hperms : (entry.before.step (.request entry.env line)).session.permissions
          = entry.after.session.permissions := congrArg Identity.permissions hloop.identity
      by_cases hlogin : entry.cmd = .user ∨ entry.cmd = .pass
      · obtain ⟨start, pwd, refused, hafter, hsession, hwhich⟩ := exists_tryLogin hlogin
        rcases session_tryLogin entry.env pwd refused start with hsame | ⟨hnobody, client, hok, hnew⟩
        · rw [← hafter, hsession] at hsame
          exact .inl ⟨by rw [hclient, hsame], by rw [hperms, hsame]⟩
        · rw [← hafter, hsession] at hnew
          rw [hsession] at hnobody
          refine .inr ⟨client, hnobody, ?_, by rw [hclient, hnew], by rw [hperms, hnew]⟩
          refine ⟨entry.env, line, start.state.loginName, pwd, rfl, hok, ?_⟩
          rcases hwhich with ⟨hcmd, hpwd, hparam⟩ | ⟨hcmd, hpwd, hparam⟩
          · rw [hparam, ← hcmd]
            exact .inl ⟨hasks, hpwd⟩
          · refine .inr ⟨?_, haccepts.prevCmd .user (by rw [hcmd]; rfl), hparam.symm⟩
            rw [hpwd, ← hcmd]
            exact hasks
      · rw [not_or] at hlogin
        have hleaves := keeps_onCmd entry.env entry.param entry.cmd entry.start
        exact .inl ⟨hclient.trans (hleaves.client hlogin.1 hlogin.2),
          hperms.trans (hleaves.permissions hlogin.1 hlogin.2)⟩

/-- Who is logged in, and the permissions that come of it. -/
structure Holding (base : Permissions) (who : Option Client) (ftp : FtpSession) : Prop where
  client : ftp.session.client = who
  permissions : ftp.session.permissions = who.elim base fun client => client.effective base

variable {base : Permissions} {past : List Event}

/-- Who is logged in stays so, and one client can be let in where nobody is. -/
theorem Holding.step {who : Option Client} (h : Holding base who ftp) (event : Event) :
    Holding base who (ftp.step event)
      ∨ who = none ∧ ∃ accepted, LogsIn event ftp (ftp.step event) accepted
        ∧ Holding base (some accepted) (ftp.step event) := by
  rcases permissions_step ftp event with hkeeps | ⟨accepted, hlogs⟩
  · exact .inl ⟨hkeeps.client.trans h.client, hkeeps.permissions.trans h.permissions⟩
  · obtain rfl : who = none := h.client.symm.trans hlogs.nobody
    refine .inr ⟨rfl, accepted, hlogs, hlogs.client, ?_⟩
    rw [hlogs.permissions, h.permissions]
    rfl

theorem Holding.step_some {client : Client} (h : Holding base (some client) ftp) (event : Event) :
    Holding base (some client) (ftp.step event) := by
  rcases h.step event with hkeeps | ⟨hnone, -⟩
  · exact hkeeps
  · cases hnone

/-- Where the permissions of a session come from, and the name that it may log in under. -/
structure Authorised (base : Permissions) (past : List Event) (ftp : FtpSession) : Prop where
  nobody : ftp.session.client = none → ftp.session.permissions = base
  client : ∀ client, ftp.session.client = some client →
    ftp.session.permissions = client.effective base
      ∧ ∃ front event, front ++ [event] <+: past ∧ LetsIn front event client
  name : ftp.prevCmdName = some .user → ∃ user ∈ past, user.Asks .user ftp.state.loginName

theorem Authorised.mono {later : List Event} (h : Authorised base past ftp) (hpast : past <+: later) :
    Authorised base later ftp where
  nobody := h.nobody
  client client hclient :=
    let ⟨hperms, front, event, hfront, hin⟩ := h.client client hclient
    ⟨hperms, front, event, hfront.trans hpast, hin⟩
  name hprev :=
    let ⟨user, huser, hasks⟩ := h.name hprev
    ⟨user, hpast.subset huser, hasks⟩

theorem Authorised.letsIn (h : Authorised base past ftp) {event : Event} {after : FtpSession}
    {client : Client} (hlogs : LogsIn event ftp after client) : LetsIn past event client :=
  hlogs.request.imp fun name hgiven => by
    obtain ⟨user, huser, hasks⟩ := h.name hgiven.1
    exact ⟨user, huser, hgiven.2 ▸ hasks⟩

theorem Authorised.step (h : Authorised base past ftp) (event : Event) :
    Authorised base (past ++ [event]) (ftp.step event) := by
  have hpast : past <+: past ++ [event] := List.prefix_append past [event]
  have hname (hprev : (ftp.step event).prevCmdName = some .user) :
      ∃ user ∈ past ++ [event], user.Asks .user (ftp.step event).state.loginName := by
    rcases loginName_step event hprev with hasks | ⟨hbefore, hsame⟩
    · exact ⟨event, by simp, hasks⟩
    · obtain ⟨user, huser, hasks⟩ := h.name hbefore
      exact ⟨user, hpast.subset huser, by rwa [hsame]⟩
  rcases permissions_step ftp event with hkeeps | ⟨client, hlogs⟩
  · refine ⟨fun hnone => ?_, fun client hclient => ?_, hname⟩
    · rw [hkeeps.permissions]
      exact h.nobody (hkeeps.client.symm.trans hnone)
    · obtain ⟨hperms, front, request, hfront, hin⟩ :=
        h.client client (hkeeps.client.symm.trans hclient)
      exact ⟨hkeeps.permissions.trans hperms, front, request, hfront.trans hpast, hin⟩
  · refine ⟨fun hnone => ?_, fun other hother => ?_, hname⟩
    · rw [hlogs.client] at hnone
      cases hnone
    · obtain rfl : client = other := Option.some.inj (hlogs.client.symm.trans hother)
      exact ⟨by rw [hlogs.permissions, h.nobody hlogs.nobody], past, event, List.prefix_rfl,
        h.letsIn hlogs⟩

theorem Authorised.run (h : Authorised base past ftp) (events : List Event) :
    Authorised base (past ++ events) (ftp.run events) := by
  induction events generalizing ftp past with
  | nil =>
      rw [List.append_nil]
      exact h
  | cons event events ih =>
      have hrest := ih (h.step event)
      rwa [List.append_assoc, List.singleton_append] at hrest

theorem authorised_fresh (permissions : Permissions) (disk : Disk) (segmentSize : Nat) :
    Authorised permissions [] (fresh permissions disk segmentSize) :=
  ⟨fun _ => rfl, nofun, nofun⟩

end FtpSession

/-- **The permissions of a session.** In every run they are those of the interface as long as nobody is
let in. From the request on that lets a client in, the client stays, and they are its own merged with
those of the interface, whatever is requested behind that. That request is a USER whose name needs no
password, or the PASS with the password for the name of a USER in front of it. -/
theorem permissions_run (permissions : Permissions) (disk : Disk) (segmentSize : Nat)
    (events : List Event) :
    let start := fresh permissions disk segmentSize
    (∀ past, past <+: events → Holding permissions none (start.run past))
      ∨ ∃ front event behind client, events = front ++ event :: behind ∧ LetsIn front event client
        ∧ (∀ past, past <+: front → Holding permissions none (start.run past))
        ∧ ∀ later, later <+: behind →
          Holding permissions (some client) (start.run (front ++ event :: later)) := by
  intro start
  induction events using List.reverseRecOn with
  | nil =>
      left
      intro past hpast
      obtain rfl := List.prefix_nil.mp hpast
      exact ⟨rfl, rfl⟩
  | append_singleton events event ih =>
      have hrun : start.run (events ++ [event]) = (start.run events).step event :=
        Machine.run_append _ _ _ _
      rcases ih with hnobody | ⟨front, request, behind, client, rfl, hin, hbefore, hbehind⟩
      · have hauthorised : Authorised permissions events (start.run events) :=
          (authorised_fresh permissions disk segmentSize).run events
        rcases (hnobody events List.prefix_rfl).step event with hstays | ⟨-, client, hlogs, hholding⟩
        · left
          intro past hpast
          rcases List.prefix_concat_iff.mp hpast with rfl | hfront
          · rwa [hrun]
          · exact hnobody past hfront
        · refine .inr ⟨events, event, [], client, rfl, hauthorised.letsIn hlogs, hnobody, ?_⟩
          intro later hlater
          obtain rfl := List.prefix_nil.mp hlater
          rwa [hrun]
      · refine .inr ⟨front, request, behind ++ [event], client, by simp, hin, hbefore, ?_⟩
        intro later hlater
        rcases List.prefix_concat_iff.mp hlater with rfl | hfront
        · rw [← List.cons_append, ← List.append_assoc, hrun]
          exact (hbehind behind List.prefix_rfl).step_some event
        · exact hbehind later hfront

end Wfde
