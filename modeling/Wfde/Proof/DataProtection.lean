import Wfde.Proof.Download
import Wfde.Proof.TransferSetup

/-!
# Protection of the data connection

PROT P is accepted only on an encrypted control connection. A transfer that makes its data connection
under PROT P moves no data until the connection has been upgraded, and none if the upgrade fails.
-/

namespace Wfde

open Effect FtpSession

/-- What a PROT that runs asks for: P, or C. -/
def Handled.protection (entry : Handled) : Option Bool :=
  if entry.cmd = .prot then some (iequals entry.param (bytes "p")) else none

/-- The last PROT that was accepted has asked for P. -/
def Protected (past : List Handled) : Prop :=
  (past.filterMap Handled.protection).getLast? = some true

namespace FtpSession

/-- A PROT C that is accepted before the data connection of a transfer is there. -/
def dropsProtection (ftp : FtpSession) (event : Event) : Bool :=
  match ftp.transferFile with
  | some .spawned | some .announcing | some .connecting | some .accepting =>
      (ftp.handlerOf event).bind Handled.protection == some false
  | _ => false

/-- `UpgradeToTls` succeeds on the data connection. -/
def upgradeOf (ftp : FtpSession) : Event → Option Env
  | .transfer env .done => if ftp.transferFile = some .handshaking then some env else none
  | _ => none

/-- The data connection of a transfer has been upgraded. -/
def Upgraded (ftp : FtpSession) (events : List Event) : Prop :=
  ∃ front env back, events = front ++ .transfer env .done :: back
    ∧ (runTransfer ftp front).transferFile = some .handshaking

/-- What the protection of a transfer that has been started is good for. -/
structure Guards (ftp : FtpSession) (events : List Event) : Prop where
  entered : ∀ phase, (runTransfer ftp events).transferFile = some phase → HasEntered phase →
    Upgraded ftp events
  sent : ¬ Upgraded ftp events → (runTransfer ftp events).sent = ftp.sent
  read : ¬ Upgraded ftp events → socketReads ftp events = []
  /-- A handshake that fails ends the transfer. -/
  failed : ∀ env answer, (runTransfer ftp events).transferFile = some .handshaking →
    answer.isDone = false →
    let left := runTransfer ftp (events ++ [.transfer env answer])
    (left.transferFile = some (.ending false) ∨ left.transferFile = none) ∧ left.sent = ftp.sent

section Protection

variable {ftp left : FtpSession} {cmd : FtpCmd} {event : Event}

/-- Only PROT writes the protection. -/
def SameProtection (cmd : FtpCmd) (before after : FtpSession) : Prop :=
  cmd ≠ .prot → after.state.encryptTransfers = before.state.encryptTransfers

instance : Std.Refl (SameProtection cmd) := ⟨fun _ _ => rfl⟩

instance : IsTrans FtpSession (SameProtection cmd) :=
  ⟨fun _ _ _ hab hbc hcmd => (hbc hcmd).trans (hab hcmd)⟩

theorem sameProtection_frame (cmd : FtpCmd) : Frame (SameProtection cmd) cmd where
  calls _ _ _ := rfl
  state ftp state hupdates hcmd := by
    cases hupdates with
    | prot => exact absurd rfl hcmd
    | _ => rfl
  disk _ _ _ _ := rfl
  login _ _ _ _ := rfl
  cwd _ _ _ _ := rfl
  start _ file ftp _ := by
    rw [after_startTransfer]
    rfl

theorem sameProtection_loop : LoopFrame (SameProtection .noop) where
  control _ _ _ := rfl
  closePending _ _ := rfl
  socketOpen _ _ := rfl
  closed _ _ := rfl
  replies _ _ _ := rfl
  abortTransfer _ _ := rfl
  acceptor _ _ := rfl
  transferSck _ _ := rfl

theorem encryptTransfers_onCmd (entry : Handled) :
    entry.after.state.encryptTransfers
      = entry.protection.getD entry.before.state.encryptTransfers := by
  unfold Handled.protection
  by_cases hprot : entry.cmd = .prot
  · rw [if_pos hprot, Handled.after, hprot]
    rfl
  · rw [if_neg hprot]
    exact (sameProtection_frame entry.cmd).onCmd entry.env entry.param entry.start hprot

theorem encryptTransfers_of_plan (h : left.plan = ftp.plan) :
    left.state.encryptTransfers = ftp.state.encryptTransfers := by
  change left.plan.encryptTransfers = ftp.plan.encryptTransfers
  rw [h]

/-- **Protection.** Only the handler of PROT changes it. -/
theorem encryptTransfers_step (ftp : FtpSession) (event : Event) :
    (ftp.step event).state.encryptTransfers
      = ((ftp.handlerOf event).bind Handled.protection).getD ftp.state.encryptTransfers := by
  cases hhandler : ftp.handlerOf event with
  | some entry =>
      obtain ⟨-, -, hbefore, -, -⟩ := handlerOf_eq_some hhandler
      obtain ⟨prev, hloop, -⟩ := sameProtection_loop.of_handlerOf hhandler
      calc (ftp.step event).state.encryptTransfers
          = entry.after.state.encryptTransfers := hloop nofun
        _ = entry.protection.getD entry.before.state.encryptTransfers := encryptTransfers_onCmd entry
        _ = _ := by rw [hbefore, Option.bind_some]
  | none =>
      rcases sameProtection_loop.step_other hhandler with
        hloop | ⟨env, ok, next, -, hloop⟩ | ⟨env, answer, -, hstep⟩
      · exact hloop nofun
      · exact (hloop nofun).trans (encryptTransfers_of_plan (plan_replyWritten env ok ftp))
      · rw [hstep, Option.bind_none, Option.getD_none]
        cases hphase : ftp.transferFile with
        | none => rw [resume_of_none hphase]
        | some phase =>
            have hturn : Turn ftp answer phase (after (resume env answer) ftp) :=
              turn_resume env hphase
            cases hturn with
            | waits _ _ hplan => exact encryptTransfers_of_plan hplan
            | ends hends =>
                change (after (resume env answer) ftp).plan.encryptTransfers = _
                rw [hends.plan]
                rfl

theorem protected_append (past : List Handled) (ftp : FtpSession) (event : Event) :
    Protected (past ++ (ftp.handlerOf event).toList)
      ↔ ((ftp.handlerOf event).bind Handled.protection).or
        (past.filterMap Handled.protection).getLast? = some true := by
  unfold Protected
  cases hhandler : ftp.handlerOf event with
  | none => simp
  | some entry => cases hprotection : entry.protection <;> simp [hprotection]

/-- What the protection of a session says about its history. -/
structure Protecting (past : List Handled) (ftp : FtpSession) : Prop where
  last : ftp.state.encryptTransfers = true ↔ Protected past
  encrypted : ftp.state.encryptTransfers = true → ftp.state.ccIsEncrypted = true

theorem Protecting.step {past : List Handled} (h : Protecting past ftp) (event : Event) :
    Protecting (past ++ (ftp.handlerOf event).toList) (ftp.step event) := by
  have hstep := encryptTransfers_step ftp event
  constructor
  · rw [protected_append, hstep]
    cases (ftp.handlerOf event).bind Handled.protection with
    | none => exact h.last
    | some wanted => simp
  · intro hprotected
    apply encrypted_step
    by_cases hbefore : ftp.state.encryptTransfers = true
    · exact h.encrypted hbefore
    · rw [hstep] at hprotected
      cases hhandler : ftp.handlerOf event with
      | none =>
          rw [hhandler] at hprotected
          exact absurd hprotected hbefore
      | some entry =>
          have hcmd : entry.cmd = .prot := by
            by_contra hcmd
            rw [hhandler, Option.bind_some, Handled.protection, if_neg hcmd] at hprotected
            exact hbefore hprotected
          apply (accepts_of_handlerOf hhandler).encrypted
          rw [hcmd]
          rfl

end Protection

section Transfer

variable {ftp left start : FtpSession} {answer : Answer} {phase next : TransferPhase}
  {past : List Env} {event : Event}

def IsSettingUp (phase : TransferPhase) : Prop := IsStarting phase ∨ IsConnecting phase

/-- Where the protection of a transfer stands, given the upgrades of its data connection. -/
structure Guarded (start : FtpSession) (past : List Env) (ftp : FtpSession) : Prop where
  prepared : Prepared ftp
  settingUp : ∀ phase, ftp.transferFile = some phase → IsSettingUp phase →
    ftp.state.encryptTransfers = true ∧ past = []
  handshaking : ftp.transferFile = some .handshaking → past = []
  entered : ∀ phase, ftp.transferFile = some phase → HasEntered phase → past ≠ []
  sent : past = [] → ftp.sent = start.sent

theorem HasEntered.not_isSettingUp (h : HasEntered phase) : ¬ IsSettingUp phase := by
  rintro (hstarting | rfl | rfl)
  · exact h.not_isStarting hstarting
  · exact h
  · exact h

theorem Advance.of_isSettingUp (h : Advance ftp answer phase next) (hnext : IsSettingUp next) :
    IsStarting phase := by
  cases h with
  | announces => exact .inl rfl
  | connects hphase => exact hphase
  | accepts hphase => exact hphase
  | upgrades | finishes => rcases hnext with (hcase | hcase) | (hcase | hcase) <;> cases hcase
  | enters _ _ hentered => exact absurd hnext hentered.not_isSettingUp
  | upgraded _ hentered => exact absurd hnext hentered.not_isSettingUp
  | moves _ hentered => exact absurd hnext hentered.not_isSettingUp

theorem Advance.of_handshaking (h : Advance ftp answer phase .handshaking) : IsConnecting phase := by
  cases h with
  | upgrades hphase => exact hphase
  | enters hphase => exact hphase
  | upgraded _ hentered => exact hentered.elim
  | moves _ hentered => exact hentered.elim

/-- `SendFile` and `ReceiveFile` are entered in clear, or behind the upgrade. -/
theorem Advance.of_hasEntered (h : Advance ftp answer phase next) (hnext : HasEntered next) :
    IsConnecting phase ∧ ftp.state.encryptTransfers = false
      ∨ phase = .handshaking ∧ answer.isDone = true ∨ HasEntered phase := by
  cases h with
  | enters hphase hplain => exact .inl ⟨hphase, hplain⟩
  | upgraded hdone => exact .inr (.inl ⟨rfl, hdone⟩)
  | moves hphase => exact .inr (.inr hphase)
  | _ => exact hnext.elim

theorem upgradeOf_of_phase (hphase : ftp.transferFile = some phase) (hnot : phase ≠ .handshaking)
    (event : Event) : ftp.upgradeOf event = none := by
  cases event with
  | transfer env answer =>
      cases answer with
      | done => exact if_neg (by rw [hphase]; exact fun heq => hnot (Option.some.inj heq))
      | _ => rfl
  | _ => rfl

theorem Guarded.of_turn {env : Env} (h : Guarded start past ftp)
    (hphase : ftp.transferFile = some phase)
    (hturn : Turn ftp answer phase (after (resume env answer) ftp)) :
    Guarded start (past ++ (ftp.upgradeOf (.transfer env answer)).toList)
      (after (resume env answer) ftp) := by
  have hprepared : Prepared (after (resume env answer) ftp) := h.prepared.of_turn hphase hturn
  have hsent (hpast : past ++ (ftp.upgradeOf (.transfer env answer)).toList = []) :
      (after (resume env answer) ftp).sent = start.sent := by
    have hnone : past = [] := (List.append_eq_nil_iff.mp hpast).1
    refine (sent_resume (fun buffer hsending => ?_) env answer).trans (h.sent hnone)
    exact h.entered _ hsending trivial hnone
  generalize after (resume env answer) ftp = left at *
  cases hturn with
  | @waits next hnext hadvance hplan hsck =>
      refine ⟨hprepared, ?_, ?_, ?_, hsent⟩
      · intro last hlast hsetting
        obtain rfl := Option.some.inj (hnext.symm.trans hlast)
        have hstarting := hadvance.of_isSettingUp hsetting
        obtain ⟨hencrypt, rfl⟩ := h.settingUp phase hphase (.inl hstarting)
        refine ⟨(encryptTransfers_of_plan hplan).trans hencrypt, ?_⟩
        rw [upgradeOf_of_phase hphase (by rcases hstarting with rfl | rfl <;> exact nofun)]
        rfl
      · intro hlast
        obtain rfl := Option.some.inj (hnext.symm.trans hlast)
        have hconnecting := hadvance.of_handshaking
        rw [upgradeOf_of_phase hphase (by rcases hconnecting with rfl | rfl <;> exact nofun)]
        exact (List.append_nil past).trans (h.settingUp phase hphase (.inr hconnecting)).2
      · intro last hlast hentered hpast
        obtain rfl := Option.some.inj (hnext.symm.trans hlast)
        have hnone : past = [] := (List.append_eq_nil_iff.mp hpast).1
        rcases hadvance.of_hasEntered hentered with
          ⟨hconnecting, hplain⟩ | ⟨rfl, hdone⟩ | hmoving
        · rw [(h.settingUp phase hphase (.inr hconnecting)).1] at hplain
          cases hplain
        · cases answer with
          | done => simp [upgradeOf, hphase] at hpast
          | _ => cases hdone
        · exact h.entered phase hphase hmoving hnone
  | ends hends hsck =>
      have hgone {phase : TransferPhase} (hlast : left.transferFile = some phase) : False := by
        rw [hends.transferFile] at hlast
        cases hlast
      exact ⟨hprepared, fun _ hlast => (hgone hlast).elim, fun hlast => (hgone hlast).elim,
        fun _ hlast => (hgone hlast).elim, hsent⟩

theorem Prepared.stepTransfer (h : Prepared ftp) (event : Event) :
    Prepared (stepTransfer ftp event) := by
  unfold FtpSession.stepTransfer
  split
  · exact h.step event
  · exact h

/-- While the data connection is being made, no PROT takes the protection away. -/
theorem encryptTransfers_kept (hdrops : ftp.dropsProtection event = false)
    (hphase : ftp.transferFile = some phase) (hsetting : IsSettingUp phase)
    (hencrypt : ftp.state.encryptTransfers = true) :
    (stepTransfer ftp event).state.encryptTransfers = true := by
  have hkept : (ftp.handlerOf event).bind Handled.protection ≠ some false := by
    unfold dropsProtection at hdrops
    rw [hphase] at hdrops
    rcases hsetting with (rfl | rfl) | (rfl | rfl) <;> simpa using hdrops
  have hstep := encryptTransfers_step ftp event
  rw [FtpSession.stepTransfer, hphase, Option.isSome_some, if_pos rfl, hstep]
  cases hprotection : (ftp.handlerOf event).bind Handled.protection with
  | none => exact hencrypt
  | some wanted =>
      cases wanted with
      | true => rfl
      | false => exact absurd hprotection hkept

theorem Guarded.step (h : Guarded start past ftp) (hdrops : ftp.dropsProtection event = false) :
    Guarded start (past ++ (ftp.upgradeOf event).toList) (stepTransfer ftp event) := by
  have hin (halive : ftp.transferFile.isSome = true) : ftp.state.isInTransfer = true :=
    h.prepared.isInTransfer_iff.mp (Option.isSome_iff_ne_none.mp halive)
  rcases stepTransfer_cases hin event with ⟨hevent, hwork⟩ | ⟨env, answer, rfl, hstep⟩
  · have hphase : (FtpSession.stepTransfer ftp event).transferFile = ftp.transferFile :=
      congrArg Work.transferFile hwork
    have hnone : ftp.upgradeOf event = none := by
      cases event with
      | transfer => cases hevent
      | _ => rfl
    rw [hnone, Option.toList_none, List.append_nil]
    refine ⟨h.prepared.stepTransfer event, fun phase hcase hsetting => ?_, ?_, ?_, fun hpast => ?_⟩
    · rw [hphase] at hcase
      obtain ⟨hencrypt, hpast⟩ := h.settingUp phase hcase hsetting
      exact ⟨encryptTransfers_kept hdrops hcase hsetting hencrypt, hpast⟩
    · rw [hphase]
      exact h.handshaking
    · rw [hphase]
      exact h.entered
    · exact (congrArg Work.sent hwork).trans (h.sent hpast)
  · rw [hstep]
    cases hphase : ftp.transferFile with
    | none =>
        have hnone : ftp.upgradeOf (.transfer env answer) = none := by
          cases answer with
          | done => exact if_neg (by rw [hphase]; exact nofun)
          | _ => rfl
        rw [resume_of_none hphase, hnone, Option.toList_none, List.append_nil]
        exact h
    | some phase => exact h.of_turn hphase (turn_resume env hphase)

theorem upgraded_of_upgrades {events : List Event}
    (h : Machine.trace FtpSession.stepTransfer upgradeOf ftp events ≠ []) :
    Upgraded ftp events := by
  obtain ⟨env, rest, htrace⟩ := List.exists_cons_of_ne_nil h
  have hsplit : Machine.trace FtpSession.stepTransfer upgradeOf ftp events = [] ++ env :: rest :=
    htrace
  obtain ⟨front, event, back, rfl, -, hupgrade⟩ := Machine.exists_of_trace_eq _ _ hsplit
  cases event with
  | transfer env' answer =>
      cases answer with
      | done =>
          refine ⟨front, env', back, rfl, ?_⟩
          by_contra hphase
          have hnone : upgradeOf (runTransfer ftp front) (.transfer env' .done) = none :=
            if_neg hphase
          cases hnone.symm.trans hupgrade
      | _ => cases hupgrade
  | _ => cases hupgrade

theorem receiving_of_socketReadOf {read : SocketRead} (h : socketReadOf ftp event = some read) :
    ∃ buffer, ftp.transferFile = some (.receiving buffer) := by
  cases event with
  | transfer env answer =>
      unfold socketReadOf at h
      dsimp only at h
      split at h
      · exact ⟨_, ‹_›⟩
      · cases h
  | _ => cases h

theorem guarded_run (h : Guarded ftp [] ftp) {events : List Event}
    (hkeeps : Machine.Along FtpSession.stepTransfer
      (fun ftp event => ftp.dropsProtection event = false) ftp events) :
    Guarded ftp (Machine.trace FtpSession.stepTransfer upgradeOf ftp events)
      (runTransfer ftp events) :=
  Machine.trace_induction_along FtpSession.stepTransfer upgradeOf (Guarded ftp)
    (fun _ _ _ hdrops hguarded => hguarded.step hdrops) h hkeeps

theorem guards_of_guarded (h : Guarded ftp [] ftp) {events : List Event}
    (hkeeps : Machine.Along FtpSession.stepTransfer
      (fun ftp event => ftp.dropsProtection event = false) ftp events) : Guards ftp events := by
  have hrun := guarded_run h hkeeps
  have hclear (hnot : ¬ Upgraded ftp events) :
      Machine.trace FtpSession.stepTransfer upgradeOf ftp events = [] :=
    by_contra fun hupgrades => hnot (upgraded_of_upgrades hupgrades)
  constructor
  · intro phase hphase hentered
    exact upgraded_of_upgrades (hrun.entered phase hphase hentered)
  · exact fun hnot => hrun.sent (hclear hnot)
  · intro hnot
    by_contra hreads
    obtain ⟨read, rest, htrace⟩ := List.exists_cons_of_ne_nil hreads
    have hsplit : socketReads ftp events = [] ++ read :: rest := htrace
    obtain ⟨front, event, back, rfl, -, hread⟩ := Machine.exists_of_trace_eq _ _ hsplit
    obtain ⟨buffer, hphase⟩ := receiving_of_socketReadOf hread
    have hfront := guarded_run h ((Machine.along_append _).mp hkeeps).1
    obtain ⟨first, env, last, rfl, hshaking⟩ :=
      upgraded_of_upgrades (hfront.entered _ hphase trivial)
    exact hnot ⟨first, env, last ++ event :: back, by simp, hshaking⟩
  · intro env answer hshaking hfailed
    have hsent : (runTransfer ftp events).sent = ftp.sent := hrun.sent (hrun.handshaking hshaking)
    have hleft : runTransfer ftp (events ++ [.transfer env answer])
        = after cantOpenDataConn (runTransfer ftp events) := by
      rw [runTransfer, Machine.run_append]
      change FtpSession.stepTransfer (runTransfer ftp events) _ = _
      rw [FtpSession.stepTransfer, hshaking]
      change after (resume env answer) (runTransfer ftp events) = _
      rw [resume_handshaking hshaking, hfailed]
      rfl
    rw [hleft]
    refine ⟨?_, (sent_lastReply _ _ _).trans hsent⟩
    rw [cantOpenDataConn, after_lastReply]
    split
    · exact .inl rfl
    · exact .inr rfl

end Transfer

end FtpSession

section Results

variable (permissions : Permissions) (disk : Disk) (segmentSize : Nat)

theorem protecting_run (events : List Event) :
    Protecting ((fresh permissions disk segmentSize).history events)
      ((fresh permissions disk segmentSize).run events) := by
  apply history_induction Protecting fun _ _ event h => h.step event
  constructor
  · exact ⟨nofun, nofun⟩
  · exact nofun

theorem prepared_run (events : List Event) :
    ((fresh permissions disk segmentSize).run events).Prepared :=
  Machine.run_induction step Prepared (fun _ event h => h.step event)
    (prepared_fresh permissions disk segmentSize) events

/-- **PROT P.** Data connections are protected only on an encrypted control connection. A transfer
that is accepted behind PROT P moves no data until its connection has been upgraded, and none if the
upgrade fails, unless PROT C is accepted before the connection is there. -/
theorem guards_of_protected :
    (∀ events, let ftp := (fresh permissions disk segmentSize).run events
      ftp.state.encryptTransfers = true → ftp.state.ccIsEncrypted = true)
    ∧ ∀ front event entry,
      let before := (fresh permissions disk segmentSize).run front
      before.handlerOf event = some entry → entry.cmd.startsTransfer = true →
      (before.step event).transferFile = some .spawned →
      Protected ((fresh permissions disk segmentSize).history front) →
      ∀ events, Machine.Along stepTransfer (fun ftp event => ftp.dropsProtection event = false)
          (before.step event) events →
        Guards (before.step event) events := by
  refine ⟨fun events => (protecting_run permissions disk segmentSize events).encrypted, ?_⟩
  intro front event entry before hhandler hstarts hspawned hprotected events hkeeps
  have hencrypt : before.state.encryptTransfers = true :=
    (protecting_run permissions disk segmentSize front).last.mpr hprotected
  have hcmd : entry.protection = none :=
    if_neg fun hprot => by rw [hprot] at hstarts; cases hstarts
  refine guards_of_guarded ⟨?_, ?_, ?_, ?_, fun _ => rfl⟩ hkeeps
  · exact (prepared_run permissions disk segmentSize front).step event
  · intro _ _ _
    rw [encryptTransfers_step, hhandler, Option.bind_some, hcmd]
    exact ⟨hencrypt, rfl⟩
  · rw [hspawned]
    exact nofun
  · intro phase hphase hentered
    obtain rfl := Option.some.inj (hspawned.symm.trans hphase)
    exact hentered.elim

/-- A session behind AUTH, PROT P and PORT. -/
def protectedSession : List Event :=
  [.start joeEnv, .written joeEnv true] ++ exchange "USER joe" ++ exchange "AUTH TLS"
    ++ exchange "PROT P" ++ exchange "PORT 127,0,0,1,4,1"

theorem guards_of_protected_retr :
    Guards (((fresh oneMount (oneFileDisk [7, 8]) 4096).run protectedSession).step
      (.request joeEnv (bytes "RETR a"))) (turns [.done, .done, .done, .done]) :=
  (guards_of_protected oneMount (oneFileDisk [7, 8]) 4096).2 protectedSession
    (.request joeEnv (bytes "RETR a"))
    ⟨joeEnv, .retr, bytes "a", (fresh oneMount (oneFileDisk [7, 8]) 4096).run protectedSession⟩
    rfl rfl (by decide +kernel) (by unfold Protected; decide +kernel) _ (by decide +kernel)

end Results

end Wfde
