import Wfde.Proof.MlsdGrammar
import Wfde.Proof.TransferFrame
import Wfde.Proof.WorkingDirectory

/-!
# Paths without line ends

What the client writes in its arguments comes back in paths: in the working directory, and in the
virtual path that an argument is resolved to. A path has no byte that neither the argument nor the
working directory has, but for slashes and zeros, so where no argument holds a line end no path does.
-/

namespace Wfde

open Effect Segments

section LineText

variable {text front back part : Bytes} {c : UInt8}

theorem IsLineText.of_isInfix (h : IsLineText text) (hpart : part <:+: text) : IsLineText part :=
  fun _ hc => h _ (hpart.subset hc)

theorem isLineText_cons : IsLineText (c :: text) ↔ (c ≠ cr ∧ c ≠ lf) ∧ IsLineText text :=
  List.forall_mem_cons

theorem isLineText_append : IsLineText (front ++ back) ↔ IsLineText front ∧ IsLineText back :=
  List.forall_mem_append

theorem isLineText_slash : IsLineText [slash] := by decide

end LineText

namespace Path

theorem isLineText_toVpath {parts : List Bytes} (hparts : ∀ part ∈ parts, IsLineText part) :
    IsLineText (toVpath parts) := by
  cases parts with
  | nil => exact isLineText_slash
  | cons part parts =>
      rw [toVpath_cons]
      intro c hc
      obtain ⟨part, hpart, hc⟩ := List.mem_flatMap.mp hc
      rcases List.mem_cons.mp hc with rfl | hc
      · decide
      · exact hparts part hpart c hc

theorem isLineText_of_mem_split {text part : Bytes} (h : IsLineText text) (hpart : part ∈ split text) :
    IsLineText part :=
  h.of_isInfix (isInfix_of_mem_segments (split_eq text ▸ hpart))

theorem normalizeLoop_isLineText {fuel : Nat} {parts result : List Bytes} {text : Bytes}
    (hparts : ∀ part ∈ parts, IsLineText part) (htext : IsLineText text)
    (h : normalizeLoop fuel parts text = .ok result) : ∀ part ∈ result, IsLineText part := by
  fun_induction normalizeLoop fuel parts text with
  | case1 fuel parts => simpa [← Except.ok.inj h] using hparts
  | case2 => simp at h
  | case3 fuel parts rest ih => exact ih hparts (isLineText_cons.mp htext).2 h
  | case4 fuel parts c rest hslash hend ih => exact ih hparts (isLineText_cons.mp htext).2 h
  | case5 fuel parts c rest hslash hend hskip ih =>
      have hrest := (isLineText_cons.mp htext).2
      exact ih hparts (hrest.of_isInfix (List.tail_suffix rest).isInfix) h
  | case6 => simp at h
  | case7 fuel parts c rest hslash hend hskip hdots hup hnonempty ih =>
      have hrest := (isLineText_cons.mp htext).2
      have htail := hrest.of_isInfix ((List.tail_suffix rest.tail).trans (List.tail_suffix rest)).isInfix
      exact ih (fun part hpart => hparts part (List.mem_of_mem_dropLast hpart)) htail h
  | case8 => simp at h
  | case9 fuel parts c rest hslash hend hskip hdots hstuck ih => exact ih hparts htext h
  | case10 fuel parts c rest hslash hend hskip hdots len hscan ih =>
      obtain ⟨hc, hrest⟩ := isLineText_cons.mp htext
      refine ih (fun part hpart => ?_) (hrest.of_isInfix (List.drop_suffix len rest).isInfix) h
      rcases List.mem_append.mp hpart with hpart | hpart
      · exact hparts part hpart
      · rw [List.mem_singleton.mp hpart]
        exact isLineText_cons.mpr ⟨hc, hrest.of_isInfix (List.take_prefix len rest).isInfix⟩
  | case11 => simp at h

theorem normalize_isLineText {vpath currentDir normal : Bytes} (hvpath : IsLineText vpath)
    (hdir : IsLineText currentDir) (h : normalize vpath currentDir = .ok normal) :
    IsLineText normal := by
  obtain ⟨parts, hparts, rfl⟩ := normalize_eq_ok h
  have hsplit : ∀ part ∈ split currentDir, IsLineText part := fun part hpart =>
    isLineText_of_mem_split hdir hpart
  apply isLineText_toVpath
  unfold normalizeAndSplit at hparts
  split at hparts
  · simpa [← Except.ok.inj hparts] using hsplit
  · refine normalizeLoop_isLineText ?_ hvpath hparts
    split
    · exact hsplit
    · simp

theorem isLineText_foldl_descend {parts : List Bytes} (hparts : ∀ part ∈ parts, IsLineText part)
    {s : PPath × Bytes} (h : IsLineText s.2) : IsLineText (parts.foldl descend s).2 := by
  induction parts generalizing s with
  | nil => exact h
  | cons part parts ih =>
      refine ih (fun other hother => hparts other (List.mem_cons_of_mem part hother)) ?_
      have hpart := hparts part List.mem_cons_self
      unfold descend
      dsimp only
      split
      · exact isLineText_append.mpr ⟨isLineText_append.mpr ⟨h, isLineText_slash⟩, hpart⟩
      · exact isLineText_append.mpr ⟨h, hpart⟩

theorem isLineText_makeValid {vpath : Bytes} (h : IsLineText vpath) : IsLineText (makeValid vpath) := by
  cases vpath with
  | nil => exact h
  | cons c rest =>
      unfold makeValid
      dsimp only
      split
      · exact h
      · exact isLineText_append.mpr ⟨isLineText_slash, h⟩

theorem isLineText_createSubpath {path : Path} (h : IsLineText path.vpath) {subPath : Bytes}
    (hsub : IsLineText subPath) (pathType : PathType) :
    IsLineText (path.createSubpath subPath pathType).vpath :=
  isLineText_makeValid
    (isLineText_foldl_descend (s := (path.ppath, path.vpath))
      (fun _ hpart => isLineText_of_mem_split hsub hpart) h)

end Path

namespace Permissions

theorem isCharPrefix_of_getPath {perms : Permissions} {vpath : Bytes} {entry : Path}
    {remaining : Option Bytes} (h : perms.getPath vpath (some []) = .ok (entry, remaining)) :
    IsCharPrefix entry.vpath vpath := by
  rw [getPath, walk_eq] at h
  cases hfind : perms.byVpath.find? (·.vpath == vpath) with
  | some found =>
      obtain rfl : found = entry := by
        rw [hfind] at h
        exact (Prod.mk.inj (Except.ok.inj h)).1
      have hfound : found.vpath = vpath := by simpa using List.find?_some hfind
      rw [hfound]
      exact isCharPrefix_self vpath
  | none =>
      cases hlast : (perms.byVpath.filter (isMatch vpath)).getLast? with
      | none => simp [hfind, hlast] at h
      | some found =>
          have hmatch := (PrefixSearch.mem_of_getLast?_filter hlast).2
          rw [isMatch, Bool.and_eq_true, decide_eq_true_eq] at hmatch
          by_cases hrec : found.isRecursive = true
          · obtain rfl : found = entry := by
              simp only [hfind, hlast, bestOf, if_pos hrec, assignRemaining] at h
              split at h
              · simp [Except.map] at h
              · exact (by simpa [Except.map] using h : found = entry ∧ _).1
            exact hmatch.2
          · simp [hfind, hlast, bestOf, hrec] at h

end Permissions

theorem Session.getPath_isLineText {session : Session} {vpath : Bytes} {type : PathType} {path : Path}
    (hcwd : IsLineText session.cwd) (hvpath : IsLineText vpath)
    (h : session.getPath vpath type = .ok path) : IsLineText path.vpath := by
  obtain ⟨normal, hnormal, entry, remaining, hlookup, rfl⟩ := Session.getPath_eq_ok h
  have htext := Path.normalize_isLineText hvpath hcwd hnormal
  have hentry : IsLineText entry.vpath := by
    have hpadded : IsLineText (normal ++ List.replicate entry.vpath.length 0) := by
      refine isLineText_append.mpr ⟨htext, fun c hc => ?_⟩
      rw [(List.mem_replicate.mp hc).2]
      decide
    exact hpadded.of_isInfix (Permissions.isCharPrefix_of_getPath hlookup).isInfix
  have hrest := htext.of_isInfix (Permissions.getPath_mem hlookup).2
  exact Path.isLineText_createSubpath hentry hrest type

/-- The event brings no argument with a line end. -/
def Event.IsPlain : Event → Prop
  | .request _ line => IsLineText line
  | _ => True

/-- The commands that change the session. -/
def FtpCmd.changesSession : FtpCmd → Bool
  | .cwd | .cdup | .user | .pass => true
  | _ => false

namespace FtpSession

section Handlers

open Handler

variable {ftp : FtpSession}

def SameCwd (before after : FtpSession) : Prop := after.session.cwd = before.session.cwd

instance : Std.Refl SameCwd := ⟨fun _ => rfl⟩

instance : IsTrans FtpSession SameCwd := ⟨fun _ _ _ hab hbc => hbc.trans hab⟩

theorem sameCwd_loop : LoopFrame SameCwd := by
  constructor <;> intros <;> rfl

theorem sameCwd_transfer : TransferFrame SameCwd := by
  constructor <;> intros <;> rfl

theorem sameCwd_replyWritten (env : Env) (written : Bool) :
    Keeps SameCwd (replyWritten env written) := by
  intro ftp
  rw [after_replyWritten]
  cases written with
  | true => rfl
  | false => rfl

theorem sameCwd_frame {cmd : FtpCmd} (hcmd : cmd.changesSession = false) :
    Frame SameCwd cmd where
  calls _ _ := rfl
  state _ _ _ := rfl
  disk _ _ _ := rfl
  login hlogin := by rcases hlogin with rfl | rfl <;> cases hcmd
  cwd hcwd := by rcases hcwd with rfl | rfl <;> cases hcmd
  start _ file ftp := by
    rw [after_startTransfer]
    rfl

theorem cwd_of_authenticateWithPasswd {login : Bytes → Bytes → Except Exception Client}
    {session changed : Session} {name pwd : Bytes} {accepted : Bool}
    (h : session.authenticateWithPasswd login name pwd = .ok (accepted, changed)) :
    changed.cwd = session.cwd := by
  unfold Session.authenticateWithPasswd at h
  split at h
  · cases h
  · split at h
    · obtain ⟨-, rfl⟩ := Prod.mk.inj (Except.ok.inj h)
      rfl
    · obtain ⟨-, rfl⟩ := Prod.mk.inj (Except.ok.inj h)
      rfl
    · obtain ⟨-, rfl⟩ := Prod.mk.inj (Except.ok.inj h)
      rfl
    · obtain ⟨-, rfl⟩ := Prod.mk.inj (Except.ok.inj h)
      rfl
    · cases h

theorem sameCwd_tryLogin (env : Env) (pwd : Bytes) (refused : FtpReplyCodes) :
    Keeps SameCwd (tryLogin env pwd refused) := by
  have hlogin (name : Bytes) : Keeps SameCwd (authenticateWithPasswd env name pwd) := by
    intro ftp
    have hrest (left : FtpSession) (hleft : SameCwd ftp left) : SameCwd ftp (after (do
        let result ← lift (ftp.session.authenticateWithPasswd env.login name pwd)
        modify fun ftp : FtpSession => { ftp with session := result.2 }
        return result.1) left) := by
      cases hresult : ftp.session.authenticateWithPasswd env.login name pwd with
      | ok result => exact cwd_of_authenticateWithPasswd hresult
      | error e => exact hleft
    unfold authenticateWithPasswd
    rw [after_bind_of_ok (EStateM.run_get ftp)]
    dsimp only
    split
    · exact hrest _ rfl
    · exact hrest _ rfl
  refine keeps_bind keeps_getState fun state => keeps_bind (hlogin _) fun accepted => ?_
  refine keeps_ite ?_ (keeps_pure _)
  exact keeps_bind (keeps_modifyState fun _ => rfl) fun _ => keeps_pure _

/-- A change of the directory leads to a path that the argument gives. -/
theorem plainCwd_changeDirectory {path : Bytes} (hpath : IsLineText path)
    (hcwd : IsLineText ftp.session.cwd) :
    IsLineText (after (changeDirectory path) ftp).session.cwd := by
  have hset : after (changeDirectory path) ftp = after (setCwd path) ftp :=
    (after_tryCatch_keeps (fun _ => keeps_pure _) ftp).trans
      (after_bind_keeps (fun _ => keeps_bind keeps_getCwd fun _ => keeps_pure _) ftp)
  rw [hset, setCwd, after_bind]
  cases hrun : (onSession (.setCwd path) (·.setCwd path)).run ftp with
  | ok session left =>
      obtain ⟨disk, hchanged, rfl⟩ := onSession_eq_ok.mp hrun
      obtain ⟨dir, hdir, rfl⟩ := setCwd_eq_ok hchanged
      exact Session.getPath_isLineText hcwd hpath hdir
  | error e left =>
      have hframe : Frame SameCwd .pwd := sameCwd_frame rfl
      have hsame := hframe.look (.setCwd path) (fun session => keeps_setCwd session path) ftp
      rw [after_of_error hrun] at hsame
      change IsLineText left.session.cwd
      rwa [show left.session.cwd = ftp.session.cwd from hsame]

theorem plainCwd_onCmd (env : Env) {param : Bytes} (hparam : IsLineText param) (cmd : FtpCmd)
    (hcwd : IsLineText ftp.session.cwd) :
    IsLineText (after (cmd.onCmd env param) ftp).session.cwd := by
  have hsame (h : SameCwd ftp (after (cmd.onCmd env param) ftp)) :
      IsLineText (after (cmd.onCmd env param) ftp).session.cwd := by rwa [h]
  cases hchanges : cmd.changesSession with
  | false => exact hsame ((sameCwd_frame hchanges).onCmd env param ftp)
  | true =>
      cases cmd with
      | cwd =>
          refine plainCwd_changeDirectory ?_ hcwd
          split
          · exact isLineText_slash
          · exact hparam
      | cdup => exact plainCwd_changeDirectory (by decide) hcwd
      | user =>
          have huser : Keeps SameCwd (FtpCmdUser.onCmd env param) :=
            keeps_bind (keeps_modifyState fun _ => rfl) fun _ => sameCwd_tryLogin env _ _
          exact hsame (huser ftp)
      | pass => exact hsame (sameCwd_tryLogin env _ _ ftp)
      | _ => cases hchanges

end Handlers

section Runs

theorem isLineText_paramOf {line : Bytes} (h : IsLineText line) (cmd : FtpCmd) :
    IsLineText (paramOf cmd line) :=
  h.of_isInfix ((List.dropWhile_suffix _).trans (List.drop_suffix _ _)).isInfix

/-- A step whose request holds no line end leaves none in the working directory. -/
theorem plainCwd_step {ftp : FtpSession} {event : Event} (hevent : event.IsPlain)
    (hcwd : IsLineText ftp.session.cwd) : IsLineText (ftp.step event).session.cwd := by
  cases hhandler : ftp.handlerOf event with
  | some entry =>
      obtain ⟨line, rfl, hbefore, -, hdispatch⟩ := handlerOf_eq_some hhandler
      obtain ⟨prev, hloop, -⟩ := sameCwd_loop.of_handlerOf hhandler
      obtain ⟨-, -, -, hparam, -⟩ := dispatch_eq_handle hdispatch
      have hplain : IsLineText entry.param := hparam ▸ isLineText_paramOf hevent entry.cmd
      rw [show (ftp.step _).session.cwd = entry.after.session.cwd from hloop]
      refine plainCwd_onCmd entry.env hplain entry.cmd ?_
      rw [Handled.start, hbefore]
      exact hcwd
  | none =>
      have hsame : SameCwd ftp (ftp.step event) := by
        rcases sameCwd_loop.step_other hhandler with hloop | ⟨env, ok, next, -, hloop⟩
          | ⟨env, answer, -, hstep⟩
        · exact hloop
        · exact IsTrans.trans _ _ _ (sameCwd_replyWritten env ok ftp) hloop
        · rw [hstep]
          exact sameCwd_transfer.resume (sameCwd_replyWritten env) answer ftp
      rwa [hsame]

/-- **The working directory.** As long as no argument holds a line end, the working directory of a
session holds none. -/
theorem plainCwd_run (permissions : Permissions) (disk : Disk) (segmentSize : Nat)
    {events : List Event} (h : ∀ event ∈ events, event.IsPlain) :
    IsLineText ((fresh permissions disk segmentSize).run events).session.cwd :=
  Machine.run_induction_along step (fun ftp => IsLineText ftp.session.cwd)
    (fun _ _ hevent hcwd => plainCwd_step hevent hcwd) isLineText_slash
    (Machine.along_of_forall_mem step h _)

end Runs

end FtpSession

end Wfde
