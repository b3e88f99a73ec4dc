import Wfde.Ftp.ListFormats
import Wfde.Proof.AtRest
import Wfde.Proof.DirectoryListing

/-!
# Hidden files

LIST and STAT note in the state that hidden files have been asked for, and only the end of a transfer
takes that back. So a command that has not asked shows them, if one before it has.
-/

namespace Wfde

open Effect FtpSession

/-- What a listing command makes of its parameter. -/
def FtpCmd.listArgs (param : Bytes) : FtpCmd → Option ListArgs
  | list => some (parseListLoop {} false param)
  | nlst => some { vpath := param, format := .short }
  | mlsd => some { vpath := param, format := .mlsd }
  | stat => if param.isEmpty then none else some (parseListLoop {} false param)
  | _ => none

/-- The command asks for hidden files. -/
def FtpCmd.asksForHidden (param : Bytes) (cmd : FtpCmd) : Bool :=
  (cmd.listArgs param).any ListArgs.listHiddenFiles

namespace FtpSession

section Handlers

open Handler

def SameHidden (before after : FtpSession) : Prop :=
  after.state.listHiddenFiles = before.state.listHiddenFiles

instance : Std.Refl SameHidden := ⟨fun _ => rfl⟩

instance : IsTrans FtpSession SameHidden := ⟨fun _ _ _ hab hbc => hbc.trans hab⟩

theorem sameHidden_frame {cmd : FtpCmd} (hlist : cmd ≠ .list) (hstat : cmd ≠ .stat) :
    Frame SameHidden cmd where
  calls _ _ := rfl
  state ftp state hupdates := by
    cases hupdates with
    | hidden hcmd => exact absurd hcmd (not_or.mpr ⟨hlist, hstat⟩)
    | _ => rfl
  disk _ _ _ := rfl
  login _ _ _ := rfl
  cwd _ _ _ := rfl
  start _ file ftp := by
    rw [after_startTransfer]
    rfl

theorem sameHidden_loop : LoopFrame SameHidden where
  control _ _ := rfl
  closePending _ := rfl
  socketOpen _ := rfl
  closed _ := rfl
  replies _ _ := rfl
  abortTransfer _ := rfl
  acceptor _ := rfl
  transferSck _ := rfl

def asked (ftp : FtpSession) (args : ListArgs) : FtpSession :=
  { ftp with
    state := { ftp.state with
      listHiddenFiles := ftp.state.listHiddenFiles || args.listHiddenFiles } }

theorem asked_of_not {ftp : FtpSession} {args : ListArgs} (h : args.listHiddenFiles = false) :
    ftp.asked args = ftp := by
  rw [asked, h, Bool.or_false]

theorem parseListArgs_run (param : Bytes) (ftp : FtpSession) :
    (parseListArgs param).run ftp
      = .ok (parseListLoop {} false param) (ftp.asked (parseListLoop {} false param)) := rfl

theorem listArgs_stat {param : Bytes} {args : ListArgs}
    (h : FtpCmd.stat.listArgs param = some args) :
    args = parseListLoop {} false param
      ∧ ∀ env, FtpCmd.stat.onCmd env param = FtpCmdStat.list env param := by
  rw [FtpCmd.listArgs] at h
  split at h
  · cases h
  · rename_i hempty
    exact ⟨(Option.some.inj h).symm, fun env => if_neg hempty⟩

theorem listHiddenFiles_list (env : Env) (param : Bytes) (ftp : FtpSession) :
    (after (FtpCmd.list.onCmd env param) ftp).state.listHiddenFiles
      = (ftp.state.listHiddenFiles || FtpCmd.list.asksForHidden param) := by
  have hframe : Frame SameHidden .nlst := sameHidden_frame (by decide) (by decide)
  change (after (FtpCmdList.onCmd env param) ftp).state.listHiddenFiles = _
  rw [FtpCmdList.onCmd, after_bind_of_ok (parseListArgs_run param ftp)]
  exact hframe.listAndTransfer rfl env _ _ (keeps_modify fun ftp => Std.Refl.refl ftp) _

theorem listHiddenFiles_stat (env : Env) (param : Bytes) (ftp : FtpSession) :
    (after (FtpCmd.stat.onCmd env param) ftp).state.listHiddenFiles
      = (ftp.state.listHiddenFiles || FtpCmd.stat.asksForHidden param) := by
  cases hargs : FtpCmd.stat.listArgs param with
  | none =>
      have hempty : param.isEmpty = true := by
        by_contra hnot
        rw [FtpCmd.listArgs, if_neg hnot] at hargs
        cases hargs
      rw [FtpCmd.asksForHidden, hargs, show FtpCmd.stat.onCmd env param = _ from if_pos hempty]
      exact (Bool.or_false _).symm
  | some args =>
      obtain ⟨rfl, hlist⟩ := listArgs_stat hargs
      have hframe : Frame SameHidden .nlst := sameHidden_frame (by decide) (by decide)
      rw [hlist, FtpCmdStat.list, after_bind_of_ok (parseListArgs_run param ftp),
        FtpCmd.asksForHidden, hargs]
      refine keeps_tryOrFail (keeps_bind (hframe.getPathForListing _) fun path => ?_) _
      exact keeps_bind (hframe.listDirectory env _ path) fun _ => keeps_pure _

/-- **Asking for hidden files.** A handler leaves the option alone, unless its own command asks. -/
theorem listHiddenFiles_onCmd (env : Env) (param : Bytes) (cmd : FtpCmd) (ftp : FtpSession) :
    (after (cmd.onCmd env param) ftp).state.listHiddenFiles
      = (ftp.state.listHiddenFiles || cmd.asksForHidden param) := by
  by_cases hlist : cmd = .list
  · rw [hlist, listHiddenFiles_list]
  by_cases hstat : cmd = .stat
  · rw [hstat, listHiddenFiles_stat]
  have hasks : cmd.asksForHidden param = false := by
    cases cmd with
    | list => exact absurd rfl hlist
    | stat => exact absurd rfl hstat
    | _ => rfl
  rw [hasks, Bool.or_false]
  exact (sameHidden_frame hlist hstat).onCmd env param ftp

end Handlers

section Runs

variable {ftp : FtpSession} {event : Event}

/-- What a step does to the option of hidden files. -/
inductive HiddenMark where
  | asked
  | ended
  deriving DecidableEq

def hiddenMark (ftp : FtpSession) (event : Event) : Option HiddenMark :=
  match ftp.handlerOf event with
  | some entry => if entry.cmd.asksForHidden entry.param then some .asked else none
  | none =>
      if ftp.transferFile.isSome && (ftp.step event).transferFile.isNone then some .ended else none

/-- A command of the run has asked for hidden files, and no transfer has ended behind it. -/
def IsPending (ftp : FtpSession) (events : List Event) : Prop :=
  (Machine.trace step hiddenMark ftp events).getLast? = some .asked

instance (ftp : FtpSession) (events : List Event) : Decidable (IsPending ftp events) :=
  inferInstanceAs (Decidable (_ = _))

theorem listHiddenFiles_of_plan {left : FtpSession} (h : left.plan = ftp.plan) :
    SameHidden ftp left := by
  change left.plan.listHiddenFiles = ftp.plan.listHiddenFiles
  rw [h]

/-- A turn of the transfer coroutine leaves the option alone, unless it is the last one. -/
theorem listHiddenFiles_resume (env : Env) (answer : Answer) (h : ftp.transferFile ≠ none) :
    ((after (resume env answer) ftp).transferFile ≠ none
        ∧ SameHidden ftp (after (resume env answer) ftp))
      ∨ (after (resume env answer) ftp).transferFile = none
        ∧ (after (resume env answer) ftp).state.listHiddenFiles = false := by
  obtain ⟨phase, hphase⟩ := Option.ne_none_iff_exists'.mp h
  have hturn : Turn ftp answer phase (after (resume env answer) ftp) := turn_resume env hphase
  cases hturn with
  | waits hnext _ hplan _ =>
      refine .inl ⟨?_, listHiddenFiles_of_plan hplan⟩
      rw [hnext]
      exact Option.some_ne_none _
  | ends hends _ =>
      refine .inr ⟨hends.transferFile, ?_⟩
      change (after (resume env answer) ftp).plan.listHiddenFiles = false
      rw [hends.plan]
      rfl

theorem listHiddenFiles_handler {entry : Handled} (h : ftp.handlerOf event = some entry) :
    (ftp.step event).state.listHiddenFiles
      = (ftp.state.listHiddenFiles || entry.cmd.asksForHidden entry.param) := by
  obtain ⟨prev, hloop, -⟩ := sameHidden_loop.of_handlerOf h
  obtain ⟨line, -, hbefore, -, -⟩ := handlerOf_eq_some h
  have hhandler := listHiddenFiles_onCmd entry.env entry.param entry.cmd entry.start
  rw [show (ftp.step event).state.listHiddenFiles = _ from hloop]
  rw [Handled.start, hbefore] at hhandler
  rw [← hhandler, Handled.after, Handled.start, hbefore]

/-- Without a handler nothing changes the option but the end of a transfer. -/
theorem listHiddenFiles_idle (h : ftp.handlerOf event = none) :
    ((ftp.transferFile = none ∨ (ftp.step event).transferFile ≠ none)
        ∧ SameHidden ftp (ftp.step event))
      ∨ ftp.transferFile ≠ none ∧ (ftp.step event).transferFile = none
        ∧ (ftp.step event).state.listHiddenFiles = false := by
  by_cases htransfer : ∃ env answer, event = .transfer env answer
  · obtain ⟨env, answer, rfl⟩ := htransfer
    change _ ∨ _ ∧ (after (resume env answer) ftp).transferFile = none ∧ _
    by_cases hphase : ftp.transferFile = none
    · refine .inl ⟨.inl hphase, ?_⟩
      change SameHidden ftp (after (resume env answer) ftp)
      rw [resume_of_none hphase]
      exact Std.Refl.refl ftp
    · rcases listHiddenFiles_resume env answer hphase with ⟨hwaits, hsame⟩ | hends
      · exact .inl ⟨.inr hwaits, hsame⟩
      · exact .inr ⟨hphase, hends⟩
  · have hloop : Loops ftp (ftp.step event) :=
      (loops_idle h).resolve_right fun ⟨env, answer, hevent, _⟩ => htransfer ⟨env, answer, hevent⟩
    have hsame : SameHidden ftp (ftp.step event) := by
      rcases sameHidden_loop.step_other h with hsame | ⟨env, ok, _, _, hsame⟩ | ⟨env, answer, hevent, _⟩
      · exact hsame
      · have hwritten := listHiddenFiles_of_plan (plan_replyWritten env ok ftp)
        exact IsTrans.trans _ _ _ hwritten hsame
      · exact absurd ⟨env, answer, hevent⟩ htransfer
    refine .inl ⟨?_, hsame⟩
    rw [hloop.transferFile]
    exact Classical.em _

/-- **The option of hidden files.** In every run it is set if and only if a command has asked for
hidden files and no transfer has ended since. -/
theorem listHiddenFiles_run (permissions : Permissions) (disk : Disk) (segmentSize : Nat)
    (events : List Event) :
    ((fresh permissions disk segmentSize).run events).state.listHiddenFiles = true
      ↔ IsPending (fresh permissions disk segmentSize) events := by
  let inv (past : List HiddenMark) (ftp : FtpSession) : Prop :=
    ftp.state.listHiddenFiles = true ↔ past.getLast? = some .asked
  suffices hinv : inv ([] ++ Machine.trace step hiddenMark (fresh permissions disk segmentSize) events)
      ((fresh permissions disk segmentSize).run events) from hinv
  refine Machine.trace_induction step hiddenMark inv ?_ (by simp [inv, fresh]) events
  intro past ftp event hpast
  cases hhandler : ftp.handlerOf event with
  | some entry =>
      have hflag := listHiddenFiles_handler hhandler
      cases hasks : entry.cmd.asksForHidden entry.param with
      | true =>
          have hmark : hiddenMark ftp event = some .asked := by
            rw [hiddenMark, hhandler]
            exact if_pos hasks
          simp [inv, hmark, hflag, hasks]
      | false =>
          have hmark : hiddenMark ftp event = none := by
            rw [hiddenMark, hhandler]
            exact if_neg (by simp [hasks])
          simpa [inv, hmark, hflag, hasks] using hpast
  | none =>
      have hmark : hiddenMark ftp event = if ftp.transferFile.isSome
          && (ftp.step event).transferFile.isNone then some .ended else none := by
        rw [hiddenMark, hhandler]
      rcases listHiddenFiles_idle hhandler with ⟨hgoes, hsame⟩ | ⟨hphase, hnone, hflag⟩
      · have hnot : ¬ (ftp.transferFile.isSome && (ftp.step event).transferFile.isNone) = true := by
          rcases hgoes with hgoes | hgoes <;> simp [hgoes, Option.isNone_iff_eq_none]
        rw [if_neg hnot] at hmark
        rw [hmark, Option.toList_none, List.append_nil]
        change _ = true ↔ _
        rw [show (ftp.step event).state.listHiddenFiles = _ from hsame]
        exact hpast
      · have hends : (ftp.transferFile.isSome && (ftp.step event).transferFile.isNone) = true := by
          simp [hnone, Option.isSome_iff_ne_none, hphase]
        rw [if_pos hends] at hmark
        simp [inv, hmark, hflag]

end Runs

section Listings

open Handler

variable {ftp : FtpSession} {vpath : Bytes} {format format' : ListFormat} {path path' : Path}
  {body : List Bytes → Handler}

def SameListings (before after : FtpSession) : Prop :=
  ∀ format path, .listDirectory format path ∈ after.calls ↔ .listDirectory format path ∈ before.calls

instance : Std.Refl SameListings := ⟨fun _ _ _ => Iff.rfl⟩

instance : IsTrans FtpSession SameListings :=
  ⟨fun _ _ _ hab hbc format path => (hbc format path).trans (hab format path)⟩

theorem sameListings_startTransfer (file : RawFile) : Keeps SameListings (startTransfer file) := by
  intro ftp format path
  rw [after_startTransfer]
  simp [started]

theorem listDirectory_mem_after (env : Env) (hbody : ∀ buffers, Keeps SameListings (body buffers)) :
    .listDirectory format' path' ∈ (after (listDirectory env format path >>= body) ftp).calls
      ↔ .listDirectory format' path' ∈ ftp.calls ∨ format' = format ∧ path' = path := by
  let noted : FtpSession := { ftp with calls := ftp.calls ++ [.listDirectory format path] }
  have hnote : (note (.listDirectory format path)).run ftp = .ok () noted := rfl
  have hrest : Keeps SameListings ((do
      let state ← getState
      lift (env.listing format path state)) >>= body) :=
    keeps_bind (keeps_bind keeps_getState fun _ => keeps_lift _) hbody
  have hlisted : after (listDirectory env format path >>= body) ftp = after ((do
      let state ← getState
      lift (env.listing format path state)) >>= body) noted := rfl
  rw [hlisted, hrest noted format' path']
  simp [noted]

/-- A listing command lists the path that it gets, and nothing else. -/
theorem listDirectory_mem_listing (env : Env)
    (hbody : ∀ buffers, Keeps SameListings (body buffers)) :
    .listDirectory format' path' ∈ (after (do
        let path ← getPathForListing vpath
        let buffers ← listDirectory env format path
        body buffers) ftp).calls
      ↔ .listDirectory format' path' ∈ ftp.calls ∨ format' = format
        ∧ ∃ disk, (ftp.session.getPathForListing vpath).run ftp.disk = .ok path' disk := by
  let looked (disk : Disk) : FtpSession :=
    { ftp with calls := ftp.calls ++ [.getPathForListing vpath], disk }
  cases hrun : (ftp.session.getPathForListing vpath).run ftp.disk with
  | ok path disk =>
      have hpath : (getPathForListing vpath).run ftp = .ok path (looked disk) :=
        onSession_eq_ok.mpr ⟨disk, hrun, rfl⟩
      rw [after_bind_of_ok hpath, listDirectory_mem_after env hbody]
      simp [looked, eq_comm]
  | error e disk =>
      have hpath : (getPathForListing vpath).run ftp = .error e (looked disk) :=
        onSession_of_error hrun
      rw [after_bind, hpath]
      simp [looked]

theorem after_tryConnect (handler : Handler) : after (tryConnect handler) ftp = after handler ftp :=
  after_tryCatch_keeps (fun _ => keeps_pure _) ftp

theorem after_tryOrFail (handler : Handler) : after (tryOrFail handler) ftp = after handler ftp :=
  after_tryCatch_keeps (fun _ => keeps_pure _) ftp

theorem listDirectory_mem_listAndTransfer (env : Env) {prepare : FtpState → FtpState} :
    .listDirectory format' path' ∈ (after (listAndTransfer env format vpath prepare) ftp).calls
      ↔ .listDirectory format' path' ∈ ftp.calls ∨ format' = format
        ∧ ∃ disk, (ftp.session.getPathForListing vpath).run ftp.disk = .ok path' disk := by
  rw [listAndTransfer, after_tryConnect]
  refine listDirectory_mem_listing env fun buffers => ?_
  refine keeps_bind (keeps_modifyState fun _ _ _ => Iff.rfl) fun _ => ?_
  exact keeps_bind (sameListings_startTransfer _) fun _ => keeps_pure _

/-- **Listings.** What a listing command lists is the path that the session gives it. -/
theorem listDirectory_mem_onCmd (env : Env) {cmd : FtpCmd} {param : Bytes} {args : ListArgs}
    (hargs : cmd.listArgs param = some args) :
    .listDirectory format path ∈ (after (cmd.onCmd env param) ftp).calls
      ↔ .listDirectory format path ∈ ftp.calls ∨ format = args.format
        ∧ ∃ disk, (ftp.session.getPathForListing args.vpath).run ftp.disk = .ok path disk := by
  cases cmd with
  | list =>
      obtain rfl := Option.some.inj hargs
      change .listDirectory format path ∈ (after (FtpCmdList.onCmd env param) ftp).calls ↔ _
      rw [FtpCmdList.onCmd, after_bind_of_ok (parseListArgs_run param ftp)]
      exact listDirectory_mem_listAndTransfer env
  | nlst =>
      obtain rfl := Option.some.inj hargs
      exact listDirectory_mem_listAndTransfer env
  | mlsd =>
      obtain rfl := Option.some.inj hargs
      exact listDirectory_mem_listAndTransfer env
  | stat =>
      obtain ⟨rfl, hlist⟩ := listArgs_stat hargs
      rw [hlist, FtpCmdStat.list, after_bind_of_ok (parseListArgs_run param ftp), after_tryOrFail]
      exact listDirectory_mem_listing env fun _ => keeps_pure _
  | _ => cases hargs

/-- The listings are read as the constructor finds them in this state. -/
def listingAt (env : Env) (state : FtpState) : Env :=
  { env with listing := fun format path _ => env.listing format path state }

theorem run_listDirectory_listingAt (env : Env) (format : ListFormat) (path : Path)
    (body : List Bytes → Handler) (ftp : FtpSession) :
    (listDirectory env format path >>= body).run ftp
      = (listDirectory (listingAt env ftp.state) format path >>= body).run ftp := rfl

theorem run_listing_listingAt (env : Env) (format : ListFormat) (vpath : Bytes)
    (body : List Bytes → Handler) (ftp : FtpSession) :
    (do
        let path ← getPathForListing vpath
        let buffers ← listDirectory env format path
        body buffers).run ftp
      = (do
        let path ← getPathForListing vpath
        let buffers ← listDirectory (listingAt env ftp.state) format path
        body buffers).run ftp := by
  refine run_bind_congr fun path left hpath => ?_
  obtain ⟨disk, -, hleft⟩ := onSession_eq_ok.mp hpath
  have hstate : left.state = ftp.state := by rw [hleft]
  rw [run_listDirectory_listingAt, hstate]

/-- **What a listing is given.** The listing of a command is made in the state behind
`ParseListArgs`. -/
theorem run_onCmd_listingAt (env : Env) {cmd : FtpCmd} {param : Bytes} {args : ListArgs}
    (hargs : cmd.listArgs param = some args) (ftp : FtpSession) :
    (cmd.onCmd env param).run ftp
      = (cmd.onCmd (listingAt env (ftp.asked args).state) param).run ftp := by
  cases cmd with
  | list =>
      obtain rfl := Option.some.inj hargs
      change (FtpCmdList.onCmd env param).run ftp = (FtpCmdList.onCmd _ param).run ftp
      rw [FtpCmdList.onCmd, FtpCmdList.onCmd, run_bind_of_ok (parseListArgs_run param ftp),
        run_bind_of_ok (parseListArgs_run param ftp)]
      exact run_tryCatch_congr (run_listing_listingAt env _ _ _ _)
  | nlst | mlsd =>
      obtain rfl := Option.some.inj hargs
      rw [asked_of_not rfl]
      exact run_tryCatch_congr (run_listing_listingAt env _ _ _ _)
  | stat =>
      obtain ⟨rfl, hlist⟩ := listArgs_stat hargs
      rw [hlist, hlist, FtpCmdStat.list, FtpCmdStat.list,
        run_bind_of_ok (parseListArgs_run param ftp), run_bind_of_ok (parseListArgs_run param ftp)]
      exact run_tryCatch_congr (run_listing_listingAt env _ _ _ _)
  | _ => cases hargs

end Listings

end FtpSession

def IsHidden (name : Bytes) : Prop := [dot] <+: name ∧ name ≠ [dot] ∧ name ≠ [dot, dot]

theorem not_isHidden_of_visible {name : Bytes} (h : Visible false name) : ¬ IsHidden name := by
  rintro ⟨hdot, hone, htwo⟩
  rcases h with h | h | h | h
  · cases h
  · exact h hdot
  · exact hone h
  · exact htwo h

namespace Directory

variable (directory : Directory) (path : Path) (state : FtpState)

def shown : List Entry := (directory.listing path state).dirLister.toShow directory.host

theorem mem_shown {entry : Entry} :
    entry ∈ directory.shown path state
      ↔ entry ∈ given directory.host path.ppath directory.names directory.vpaths
        ∧ Visible (state.listHiddenFiles && path.canSeeHiddenFiles) entry.name := by
  change entry ∈ visible _ (given _ _ _ _) ↔ _
  simp only [visible, List.mem_filter, decide_eq_true_eq]
  rfl

variable {directory path state} in
theorem flatten_of_readUntilEof {fuel : Nat} {buffers : List Bytes}
    (hread : WfdeFtpList.readUntilEof directory.host fuel (directory.listing path state) = some buffers)
    (hfits : ∀ entry ∈ directory.shown path state,
      (directory.format.printIt entry).length ≤ directory.format.calculateSize entry
        ∧ directory.format.calculateSize entry < directory.buffer.length) :
    buffers.flatten = (directory.shown path state).flatMap directory.format.printIt := by
  have hdelivers : WfdeFtpList.Delivers directory.host (directory.listing path state)
      buffers.flatten := ⟨fuel, buffers, hread, rfl⟩
  exact hdelivers.unique (delivers_make hfits)

def profile : Directory where
  host := ⟨fun _ => {}, id⟩
  names := [bytes ".profile"]
  vpaths := []
  buffer := []
  format := nlstFormat

end Directory

namespace Handled

variable (entry : Handled)

/-- Hidden files are in what a command lists only if the command has asked for them and they may be
seen where it lists, whatever the directory. -/
def ShowsAsked : Prop :=
  ∀ args, entry.cmd.listArgs entry.param = some args →
    ∀ format path, .listDirectory format path ∈ entry.calls →
      ∀ (directory : Directory), ∀ shown ∈ directory.shown path (entry.before.asked args).state,
        IsHidden shown.name → args.listHiddenFiles = true ∧ path.canSeeHiddenFiles = true

/-- The path can be listed, and hidden files may be seen there. -/
def maySeeHidden (vpath : Bytes) : Bool :=
  match (entry.before.session.getPathForListing vpath).run entry.before.disk with
  | .ok path _ => path.canSeeHiddenFiles
  | .error _ _ => false

/-- The command lists a path where hidden files may be seen, and has not asked for them. -/
def listsUnasked : Bool :=
  (entry.cmd.listArgs entry.param).any fun args =>
    !args.listHiddenFiles && entry.maySeeHidden args.vpath

variable {entry}

theorem maySeeHidden_iff {vpath : Bytes} :
    entry.maySeeHidden vpath = true
      ↔ ∃ path disk, (entry.before.session.getPathForListing vpath).run entry.before.disk
          = .ok path disk ∧ path.canSeeHiddenFiles = true := by
  unfold maySeeHidden
  cases (entry.before.session.getPathForListing vpath).run entry.before.disk with
  | ok path disk => simp
  | error e disk => simp

theorem listsUnasked_iff :
    entry.listsUnasked = true
      ↔ ∃ args, entry.cmd.listArgs entry.param = some args ∧ args.listHiddenFiles = false
        ∧ entry.maySeeHidden args.vpath = true := by
  simp [listsUnasked, Option.any_eq_true, Bool.and_eq_true]

theorem listDirectory_mem_calls {args : ListArgs} {format : ListFormat} {path : Path}
    (hargs : entry.cmd.listArgs entry.param = some args) :
    .listDirectory format path ∈ entry.calls ↔ format = args.format
      ∧ ∃ disk, (entry.before.session.getPathForListing args.vpath).run entry.before.disk
        = .ok path disk := by
  have hcalls : Call.listDirectory format path
      ∈ (Effect.after (entry.cmd.onCmd entry.env entry.param) entry.start).calls ↔ _ :=
    listDirectory_mem_onCmd entry.env hargs
  simpa [Handled.calls, Handled.after, Handled.start] using hcalls

/-- A command that has not asked shows hidden files where they may be seen, if the option is set. -/
theorem not_showsAsked (hflag : entry.before.state.listHiddenFiles = true)
    (hlists : entry.listsUnasked = true) : ¬ entry.ShowsAsked := by
  obtain ⟨args, hargs, hnot, hmay⟩ := listsUnasked_iff.mp hlists
  obtain ⟨path, disk, hpath, hsee⟩ := maySeeHidden_iff.mp hmay
  intro hshows
  have hcall : .listDirectory args.format path ∈ entry.calls :=
    (listDirectory_mem_calls hargs).mpr ⟨rfl, disk, hpath⟩
  have hgiven : given Directory.profile.host path.ppath Directory.profile.names []
      = [⟨bytes ".profile", {}⟩] := rfl
  have hshown : (⟨bytes ".profile", {}⟩ : Entry)
      ∈ Directory.profile.shown path (entry.before.asked args).state := by
    refine (Directory.mem_shown _ _ _).mpr ⟨?_, .inl ?_⟩
    · change _ ∈ given Directory.profile.host path.ppath Directory.profile.names []
      rw [hgiven]
      exact List.mem_singleton_self _
    · rw [asked, hflag, hsee]
      rfl
  have hasked := hshows args hargs _ path hcall _ _ hshown (by unfold IsHidden; decide)
  rw [hnot] at hasked
  exact Bool.false_ne_true hasked.1

theorem showsAsked_of_not
    (h : ¬ (entry.before.state.listHiddenFiles = true ∧ entry.listsUnasked = true)) :
    entry.ShowsAsked := by
  intro args hargs format path hcall directory shown hshown hhidden
  obtain ⟨-, disk, hpath⟩ := (listDirectory_mem_calls hargs).mp hcall
  have hvisible := ((Directory.mem_shown _ _ _).mp hshown).2
  have hshows : ((entry.before.asked args).state.listHiddenFiles && path.canSeeHiddenFiles) = true := by
    by_contra hnot
    rw [Bool.not_eq_true] at hnot
    rw [hnot] at hvisible
    exact not_isHidden_of_visible hvisible hhidden
  rw [Bool.and_eq_true, asked, Bool.or_eq_true] at hshows
  refine ⟨?_, hshows.2⟩
  by_contra hnot
  rw [Bool.not_eq_true] at hnot
  have hmay : entry.maySeeHidden args.vpath = true :=
    maySeeHidden_iff.mpr ⟨path, disk, hpath, hshows.2⟩
  refine h ⟨?_, listsUnasked_iff.mpr ⟨args, hargs, hnot, hmay⟩⟩
  exact hshows.1.resolve_right (by simp [hnot])

end Handled

/-- **Hidden files.** In every run, what a command lists shows hidden files only if the command has
asked for them, if and only if no other command's asking is pending where it lists. -/
theorem showsAsked_iff (permissions : Permissions) (disk : Disk) (segmentSize : Nat)
    {front : List Event} {event : Event} {entry : Handled}
    (h : ((fresh permissions disk segmentSize).run front).handlerOf event = some entry) :
    entry.ShowsAsked
      ↔ ¬ (IsPending (fresh permissions disk segmentSize) front ∧ entry.listsUnasked = true) := by
  obtain ⟨line, -, hbefore, -, -⟩ := handlerOf_eq_some h
  rw [← listHiddenFiles_run, ← hbefore]
  constructor
  · rintro hshows ⟨hflag, hlists⟩
    exact Handled.not_showsAsked hflag hlists hshows
  · exact Handled.showsAsked_of_not

def openMount : Permissions :=
  ⟨[.make [slash] [bytes "srv"] (Path.toPermBits [.canList, .canSeeHiddenFiles, .isRecursive])],
    by decide, by decide⟩

def rootDisk : Disk where
  files :=
    { node := fun path => if path = [bytes "srv"] then some .directory else none
      refuses := fun _ _ => false }
  performed := []

def greeted : List Event := [.start joeEnv, .written joeEnv true] ++ exchange "USER joe"

theorem handlerOf_request {ftp : FtpSession} {env : Env} {line : Bytes} {cmd : FtpCmd} {param : Bytes}
    (h : (ftp.handlerOf (.request env line)).map (fun entry => (entry.cmd, entry.param))
      = some (cmd, param)) :
    ftp.handlerOf (.request env line) = some ⟨env, cmd, param, ftp⟩ := by
  obtain ⟨entry, hhandler, hshape⟩ := Option.map_eq_some_iff.mp h
  obtain ⟨_, hevent, rfl, -, -⟩ := handlerOf_eq_some hhandler
  obtain ⟨entryEnv, entryCmd, entryParam, before⟩ := entry
  obtain ⟨rfl, rfl⟩ := Prod.mk.inj hshape
  obtain ⟨rfl, -⟩ := Event.request.inj hevent
  exact hhandler

/-- A client that has not asked for hidden files, and nobody before it has. -/
theorem showsAsked_iff_first :
    Handled.ShowsAsked ⟨joeEnv, .stat, bytes "/", (fresh openMount rootDisk 4096).run greeted⟩ := by
  have hhandler : ((fresh openMount rootDisk 4096).run greeted).handlerOf
        (.request joeEnv (bytes "STAT /"))
      = some ⟨joeEnv, .stat, bytes "/", (fresh openMount rootDisk 4096).run greeted⟩ :=
    handlerOf_request (by decide +kernel)
  exact (showsAsked_iff openMount rootDisk 4096 hhandler).mpr fun h =>
    absurd h.1 (by decide +kernel)

/-- STAT shows what another STAT has asked for. -/
theorem not_showsAsked_second :
    ∃ entry, ((fresh openMount rootDisk 4096).run (greeted ++ exchange "STAT -a /")).handlerOf
        (.request joeEnv (bytes "STAT /")) = some entry ∧ ¬ entry.ShowsAsked :=
  ⟨⟨joeEnv, .stat, bytes "/", _⟩, handlerOf_request (by decide +kernel),
    Handled.not_showsAsked (by decide +kernel) (by decide +kernel)⟩

end Wfde
