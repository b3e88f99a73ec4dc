import Wfde.Proof.StepFrame
import Wfde.Proof.Authorisation

/-!
# RNFR and RNTO

The RNTO handler always asks for a renaming. What keeps it in step with an RNFR is the name of the
previous command, which is there after a refusal as well, and the stored source, which stays until
an RNFR is accepted again.
-/

namespace Wfde

open Effect FtpSession

/-- The client may rename what this RNFR names, and it is there. -/
def Renamable (entry : Handled) (path : Path) : Prop :=
  entry.before.session.getPath entry.param .any = .ok path ∧ path.canRename = true
    ∧ entry.before.disk.files.refuses .status path.ppath = false
    ∧ (entry.before.disk.files.node path.ppath).isSome

/-- Every renaming an RNTO asks for is from the path that an RNFR right before it has resolved and
accepted. -/
def FollowsRnfr (past : List Handled) (entry : Handled) : Prop :=
  ∀ source target, Call.rename source target ∈ entry.calls →
    ∃ front rnfr path, past = front ++ [rnfr] ∧ rnfr.cmd = .rnfr
      ∧ rnfr.reply = some { code := .fileActionPendingInfo }
      ∧ Call.getPath rnfr.param .any (.ok path) ∈ rnfr.calls ∧ source = path.vpath

section Handlers

variable {ftp left : FtpSession} {param : Bytes}

theorem getPath_eq_ok {type : PathType} {path : Path} :
    (FtpSession.getPath param type).run ftp = .ok path left
      ↔ ftp.session.getPath param type = .ok path
        ∧ { ftp with calls := ftp.calls ++ [.getPath param type (.ok path)] } = left := by
  let asked (result : Except Exception Path) : FtpSession :=
    { ftp with calls := ftp.calls ++ [.getPath param type result] }
  change (lift (ftp.session.getPath param type)).run (asked (ftp.session.getPath param type)) = _ ↔ _
  rw [lift_eq_ok]
  constructor
  · rintro ⟨hpath, rfl⟩
    exact ⟨hpath, by rw [hpath]⟩
  · rintro ⟨hpath, rfl⟩
    exact ⟨hpath, by rw [hpath]⟩

theorem existsOnDisk_any {path : Path} {found : Bool} (htype : path.type = .any)
    (h : (FtpSession.existsOnDisk path).run ftp = .ok found left) :
    ftp.disk.files.refuses .status path.ppath = false
      ∧ (ftp.disk.files.node path.ppath).isSome = found := by
  obtain ⟨disk, hexists, -⟩ := onSession_eq_ok.mp h
  obtain ⟨-, hallowed, hnode⟩ := Path.existsOnDisk_eq_ok hexists
  rw [htype] at hnode
  exact ⟨hallowed, hnode⟩

theorem existsOnDisk_run {path : Path} (htype : path.type = .any)
    (hallowed : ftp.disk.files.refuses .status path.ppath = false) :
    (FtpSession.existsOnDisk path).run ftp
      = .ok (ftp.disk.files.node path.ppath).isSome
        { ftp with calls := ftp.calls ++ [.existsOnDisk path] } := by
  refine onSession_eq_ok.mpr ⟨ftp.disk, ?_, rfl⟩
  refine bind_eq_ok.mpr ⟨_, _, Disk.status_eq_ok.mpr ⟨hallowed, rfl, rfl⟩, ?_⟩
  rw [htype]
  rfl

theorem rnfr_run {path : Path} (hpath : ftp.session.getPath param .any = .ok path)
    (hbit : path.canRename = true)
    (hallowed : ftp.disk.files.refuses .status path.ppath = false)
    (hnode : (ftp.disk.files.node path.ppath).isSome = true) :
    (FtpCmdRnfr.onCmd param).run ftp
      = .ok (some { code := .fileActionPendingInfo })
        { ftp with
          calls := ftp.calls ++ [.getPath param .any (.ok path)] ++ [.existsOnDisk path]
          state := { ftp.state with rnfr := path.vpath } } := by
  apply tryCatch_of_ok
  refine bind_eq_ok.mpr ⟨path, _, getPath_eq_ok.mpr ⟨hpath, rfl⟩, ?_⟩
  rw [if_neg (by simp [hbit])]
  have hfound := existsOnDisk_run (Session.getPath_type hpath)
    (show ({ ftp with calls := ftp.calls ++ [.getPath param .any (.ok path)] } :
      FtpSession).disk.files.refuses .status path.ppath = false from hallowed)
  exact bind_eq_ok.mpr ⟨_, _, hfound, by rw [hnode]; rfl⟩

theorem renamable_of_rnfr
    (h : (FtpCmdRnfr.onCmd param).run ftp = .ok (some { code := .fileActionPendingInfo }) left) :
    ∃ path, ftp.session.getPath param .any = .ok path ∧ path.canRename = true
      ∧ ftp.disk.files.refuses .status path.ppath = false
      ∧ (ftp.disk.files.node path.ppath).isSome = true := by
  cases hcheck : (FtpCmdRnfr.checkSource param).run ftp with
  | error e thrown =>
      rw [show (FtpCmdRnfr.onCmd param).run ftp = _ from tryCatch_of_error hcheck] at h
      simp [Handler.answer] at h
  | ok reply thrown =>
      rw [show (FtpCmdRnfr.onCmd param).run ftp = _ from tryCatch_of_ok hcheck] at h
      cases h
      obtain ⟨path, _, hpath, hcheck⟩ := bind_eq_ok.mp hcheck
      obtain ⟨hresolved, rfl⟩ := getPath_eq_ok.mp hpath
      cases hbit : path.canRename with
      | false =>
          rw [if_pos (by simp [hbit])] at hcheck
          simp [Handler.answer] at hcheck
      | true =>
          rw [if_neg (by simp [hbit])] at hcheck
          obtain ⟨found, _, hfound, hcheck⟩ := bind_eq_ok.mp hcheck
          obtain ⟨hallowed, hnode⟩ := existsOnDisk_any (Session.getPath_type hresolved) hfound
          cases found with
          | false => simp [Handler.answer] at hcheck
          | true => exact ⟨path, hresolved, hbit, hallowed, hnode⟩

theorem after_fileAction (clauses : List (Exception × Bytes)) (body : FtpM Unit) :
    after (fileAction clauses body) ftp = after body ftp :=
  calc
    after (fileAction clauses body) ftp
      = after (do body; Handler.answer .fileActionOk) ftp :=
        after_tryCatch_keeps (fun _ => keeps_pure _) ftp
    _ = after body ftp := after_bind_keeps (fun _ => keeps_pure _) ftp

theorem calls_onSession {α : Type} (call : Call) (x : Session → DiskM α) :
    (after (onSession call x) ftp).calls = ftp.calls ++ [call] := by
  have hnote : (note call).run ftp = .ok () { ftp with calls := ftp.calls ++ [call] } := rfl
  unfold onSession
  rw [after_bind_of_ok hnote, after_bind_of_ok (EStateM.run_get _), after_onDisk]

theorem rnto_calls :
    (after (FtpCmdRnto.onCmd param) ftp).calls = ftp.calls ++ [.rename ftp.state.rnfr param] := by
  have hstate : getState.run ftp = .ok ftp.state ftp := rfl
  unfold FtpCmdRnto.onCmd
  rw [after_fileAction, after_bind_of_ok hstate, FtpSession.rename, calls_onSession]

end Handlers

section Runs

/-- What a session knows of the last handler that has returned. -/
def RemembersLast (past : List Handled) (ftp : FtpSession) : Prop :=
  Live ftp → ftp.prevCmdName = past.getLast?.map Handled.cmd
    ∧ ∀ entry ∈ past.getLast?, ftp.state.rnfr = entry.after.state.rnfr

theorem remembersLast_step (past : List Handled) (ftp : FtpSession) (event : Event)
    (h : RemembersLast past ftp) :
    RemembersLast (past ++ (ftp.handlerOf event).toList) (ftp.step event) := by
  intro hlive
  cases hhandler : ftp.handlerOf event with
  | none =>
      rw [Option.toList_none, List.append_nil]
      obtain ⟨hprev, hrnfr⟩ := h (live_of_live_step hlive)
      have hsame := identity_step hhandler
      refine ⟨(congrArg Identity.prevCmdName hsame).trans hprev, fun entry hentry => ?_⟩
      exact (congrArg Identity.rnfr hsame).trans (hrnfr entry hentry)
  | some entry =>
      rw [Option.toList_some, List.getLast?_concat]
      cases hresult : entry.result with
      | error e left => exact absurd hlive (not_live_step_of_error hhandler hresult)
      | ok reply left =>
          have hsame := identity_step_of_ok hhandler hresult
          refine ⟨congrArg Identity.prevCmdName hsame, fun last hlast => ?_⟩
          obtain rfl := Option.mem_some.mp hlast
          rw [Handled.after, after_of_ok hresult]
          exact congrArg Identity.rnfr hsame

/-- The RNTO of a run follows an RNFR, and takes the source from the state that this one left. -/
theorem rnto_follows {ftp : FtpSession} (hfresh : ftp.prevCmdName = none) {events : List Event}
    {past rest : List Handled} {entry : Handled} (h : history ftp events = past ++ entry :: rest)
    (hcmd : entry.cmd = .rnto) :
    ∃ front rnfr, past = front ++ [rnfr] ∧ rnfr.cmd = .rnfr
      ∧ entry.calls = [.rename rnfr.after.state.rnfr entry.param] := by
  obtain ⟨events, event, -, -, hpast, hhandler⟩ := exists_of_history_eq h
  have hinv : RemembersLast past (ftp.run events) := by
    have hstart : RemembersLast [] ftp := fun _ => ⟨hfresh, by simp⟩
    rw [← hpast]
    exact history_induction RemembersLast remembersLast_step hstart events
  obtain ⟨-, -, hbefore, hcontrol, -⟩ := handlerOf_eq_some hhandler
  obtain ⟨hprev, hrnfr⟩ := hinv (by simp [Live, hcontrol])
  have hrnfrName : (past.getLast?.map Handled.cmd) = some .rnfr := by
    rw [← hprev]
    exact (accepts_of_handlerOf hhandler).prevCmd .rnfr (by rw [hcmd]; rfl)
  obtain ⟨rnfr, hlast, hname⟩ := Option.map_eq_some_iff.mp hrnfrName
  obtain ⟨front, rfl⟩ := List.getLast?_eq_some_iff.mp hlast
  refine ⟨front, rnfr, rfl, hname, ?_⟩
  calc
    entry.calls
      = (after (FtpCmdRnto.onCmd entry.param) entry.start).calls := by
        rw [Handled.calls, Handled.after, hcmd]
        rfl
    _ = [.rename (ftp.run events).state.rnfr entry.param] := by
        rw [rnto_calls, ← hbefore]
        rfl
    _ = [.rename rnfr.after.state.rnfr entry.param] := by
        rw [hrnfr rnfr (by simp)]

theorem rnfr_of_renamable {rnfr : Handled} {path : Path} (hcmd : rnfr.cmd = .rnfr)
    (h : Renamable rnfr path) :
    rnfr.reply = some { code := .fileActionPendingInfo } ∧ rnfr.after.state.rnfr = path.vpath
      ∧ Call.getPath rnfr.param .any (.ok path) ∈ rnfr.calls := by
  obtain ⟨hpath, hbit, hallowed, hnode⟩ := h
  replace hpath : rnfr.start.session.getPath rnfr.param .any = .ok path := hpath
  have hrun := rnfr_run hpath hbit hallowed hnode
  rw [Handled.reply, Handled.result, Handled.calls, Handled.after, hcmd]
  rw [show (FtpCmd.rnfr.onCmd rnfr.env rnfr.param).run rnfr.start = _ from hrun,
    after_of_ok (show (FtpCmd.rnfr.onCmd rnfr.env rnfr.param).run rnfr.start = _ from hrun)]
  exact ⟨rfl, rfl, by simp⟩

theorem renamable_of_reply {rnfr : Handled} (hcmd : rnfr.cmd = .rnfr)
    (h : rnfr.reply = some { code := .fileActionPendingInfo }) : ∃ path, Renamable rnfr path := by
  rw [Handled.reply] at h
  cases hresult : rnfr.result with
  | error e left => simp [hresult] at h
  | ok reply left =>
      rw [hresult] at h
      obtain rfl : reply = some { code := .fileActionPendingInfo } := h
      rw [Handled.result, hcmd] at hresult
      obtain ⟨path, hpath, hbit, hallowed, hnode⟩ := renamable_of_rnfr hresult
      exact ⟨path, hpath, hbit, hallowed, hnode⟩

end Runs

/-- **RNFR and RNTO.** In a run of a fresh session every RNTO renames what the RNFR right before it
has accepted if and only if no RNTO comes right behind an RNFR whose path does not resolve, may not
be renamed or is not there. -/
theorem rename_followsRnfr_iff (permissions : Permissions) (disk : Disk) (segmentSize : Nat)
    (events : List Event) :
    (∀ past entry rest, (fresh permissions disk segmentSize).history events = past ++ entry :: rest →
        entry.cmd = .rnto → FollowsRnfr past entry)
      ↔ ∀ past rnfr rnto rest,
        (fresh permissions disk segmentSize).history events = past ++ rnfr :: rnto :: rest →
        rnfr.cmd = .rnfr → rnto.cmd = .rnto → ∃ path, Renamable rnfr path := by
  have hfresh : (fresh permissions disk segmentSize).prevCmdName = none := rfl
  constructor
  · intro hfollows past rnfr rnto rest hhistory hrnfr hrnto
    replace hhistory : (fresh permissions disk segmentSize).history events
        = (past ++ [rnfr]) ++ rnto :: rest := by rw [hhistory, List.append_assoc]; rfl
    obtain ⟨_, _, hpast, -, hcalls⟩ := rnto_follows hfresh hhistory hrnto
    obtain ⟨_, last, path, hfront, -, hreply, -⟩ :=
      hfollows _ _ _ hhistory hrnto _ _ (by rw [hcalls]; exact List.mem_singleton_self _)
    obtain ⟨-, rfl⟩ := List.append_inj' hfront rfl |>.imp_right List.singleton_inj.mp
    exact renamable_of_reply hrnfr hreply
  · intro haccepted past rnto rest hhistory hrnto source target hcall
    obtain ⟨front, rnfr, rfl, hrnfr, hcalls⟩ := rnto_follows hfresh hhistory hrnto
    rw [List.append_assoc] at hhistory
    obtain ⟨path, hrenamable⟩ := haccepted front rnfr rnto rest hhistory hrnfr hrnto
    obtain ⟨hreply, hstored, hresolved⟩ := rnfr_of_renamable hrnfr hrenamable
    rw [hcalls, hstored, List.mem_singleton] at hcall
    obtain ⟨rfl, -⟩ := Call.rename.inj hcall
    exact ⟨front, rnfr, path, rfl, hrnfr, hreply, hresolved, rfl⟩

/-- A server whose root is `srv`, with one file in it, to which `joe` may do anything. -/
def oneMount : Permissions :=
  ⟨[.make [slash] [bytes "srv"] (Path.toPermBits [.canRead, .canWrite, .canCreateFile, .canRename,
    .isRecursive])], by decide, by decide⟩

def oneFileDisk (content : Bytes) : Disk where
  files :=
    { node := fun path => if path = [bytes "srv", bytes "a"] then some (.file content) else none
      refuses := fun _ _ => false }
  performed := []

def joeEnv : Env where
  login := fun name _ => if name = bytes "joe" then .ok ⟨name, none⟩ else .error .needPasswd

/-- A request and the end of the write of its reply. -/
def exchange (line : String) : List Event := [.request joeEnv (bytes line), .written joeEnv true]

def twoSources : List Event :=
  [.start joeEnv, .written joeEnv true] ++ exchange "USER joe" ++ exchange "RNFR a"
    ++ exchange "RNFR b" ++ exchange "RNTO c"

/-- The second RNFR is refused, and the file that the first one named is renamed. -/
theorem not_followsRnfr_refused :
    let ftp := fresh oneMount (oneFileDisk []) 4096
    let handlers := ftp.history twoSources
    (handlers.map fun entry => (entry.cmd, entry.reply.map FtpReply.code))
        = [(.user, some .loggedIn), (.rnfr, some .fileActionPendingInfo),
          (.rnfr, some .actionNotTaken), (.rnto, some .fileActionOk)]
      ∧ (ftp.run twoSources).disk.performed
        = [.rename [bytes "srv", bytes "a"] [bytes "srv", bytes "c"]]
      ∧ ¬ ∀ past entry rest, handlers = past ++ entry :: rest → entry.cmd = .rnto →
        FollowsRnfr past entry := by
  intro ftp handlers
  have hreplies : (handlers.map fun entry => (entry.cmd, entry.reply.map FtpReply.code))
      = [(.user, some .loggedIn), (.rnfr, some .fileActionPendingInfo),
        (.rnfr, some .actionNotTaken)] ++ [(.rnto, some .fileActionOk)] := by decide
  refine ⟨hreplies, by decide, fun hfollows => ?_⟩
  obtain hnil | ⟨past, rnto, hhandlers⟩ := handlers.eq_nil_or_concat
  · simp [hnil] at hreplies
  · rw [List.concat_eq_append] at hhandlers
    rw [hhandlers, List.map_append] at hreplies
    obtain ⟨hpast, hrnto⟩ := List.append_inj' hreplies rfl
    have hcmd : rnto.cmd = .rnto := congrArg Prod.fst (List.singleton_inj.mp hrnto)
    have hfresh : ftp.prevCmdName = none := rfl
    obtain ⟨_, _, -, -, hcalls⟩ := rnto_follows hfresh hhandlers hcmd
    obtain ⟨front, rnfr, _, rfl, -, hreply, -⟩ :=
      hfollows past rnto [] hhandlers hcmd _ _ (by rw [hcalls]; exact List.mem_singleton_self _)
    have hlast := congrArg List.getLast? hpast
    simp [hreply] at hlast

end Wfde
