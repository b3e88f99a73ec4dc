import Wfde.Proof.HandlerErrors
import Wfde.Proof.LineWidths
import Wfde.Proof.MlstLines
import Wfde.Proof.Rename
import Wfde.Proof.ReplyLines
import Wfde.Proof.ReplyWire

/-!
# Listings in replies

STAT and MLST send what they list in their replies. STAT puts a space behind every line end of the
listing, so nothing in it can be taken for the end of the reply. MLST sends the line as it is: its name
holds no line end, but a size that does not fit lets bytes through that no one has written.
-/

namespace Wfde

open Effect FtpSession

section Replies

variable {reply : FtpReply} {param listing data : Bytes}

/-- One line, with nothing in it that ends it. -/
def FtpReply.IsPlain (reply : FtpReply) : Prop := reply.multiLine = false ∧ IsLineText reply.body

theorem FtpReply.IsPlain.isFramed (h : reply.IsPlain) : reply.IsFramed := isFramed_of_single h.1 h.2

/-- The reply of STAT, whatever the listing holds. -/
theorem isFramed_stat (hparam : IsLineText param) (listing : Bytes) :
    FtpReply.IsFramed
      { code := .directoryStatus
        message := param ++ crlf ++ FtpCmdStat.indented listing
        multiLine := true } := by
  let text : Bytes := space :: listing.flatMap fun c => if c = lf then [c, space] else [c]
  have hmarked : Lines.Marked lf space text :=
    Lines.marked_cons.mpr ⟨fun h => absurd h (by decide), Lines.marked_indent (by decide) listing⟩
  have hlisting : FtpCmdStat.indented listing <+: text := by
    unfold FtpCmdStat.indented
    dsimp only
    split
    · exact List.take_prefix _ _
    · exact List.nil_prefix
  refine isFramed_of_rest rfl ?_ hparam ?_ fun front back hrest => hmarked.of_prefix hlisting hrest
  · simp [FtpReply.body, crlf]
  · cases hindented : FtpCmdStat.indented listing with
    | nil => exact .inl rfl
    | cons c rest =>
        rw [hindented] at hlisting
        rw [(List.cons_prefix_cons.mp hlisting).1]
        exact .inr (List.prefix_append [space] rest)

def mlstReply (param data : Bytes) : FtpReply :=
  { code := .fileActionOk
    message := bytes "Listing " ++ param ++ crlf ++ data
    multiLine := true }

theorem body_mlstReply (param data : Bytes) :
    (mlstReply param data).body = bytes "Listing " ++ param ++ crlf ++ data := by
  simp [FtpReply.body, mlstReply, bytes]

theorem isFramed_mlst (hparam : IsLineText param) (hdata : IsLineText data)
    (hstart : data = [] ∨ [space] <+: data) : (mlstReply param data).IsFramed := by
  refine isFramed_of_rest rfl (body_mlstReply param data) ?_ hstart fun front back hrest => ?_
  · exact isLineText_append.mpr ⟨by decide, hparam⟩
  · exact absurd rfl (hdata lf (by simp [hrest])).2

theorem not_isFramed_mlst {front back : Bytes} (h : data = front ++ lf :: semicolon :: back) :
    ¬ (mlstReply param data).IsFramed := by
  have htext := text_of_multi (show (mlstReply param data).multiLine = true from rfl)
  rw [body_mlstReply] at htext
  generalize (mlstReply param data).number = number at htext
  have hline : number ++ bytes "- " ++ (bytes "Listing " ++ param ++ crlf ++ data) ++ crlf
        ++ (number ++ bytes " END")
      = (number ++ bytes "- " ++ (bytes "Listing " ++ param ++ crlf) ++ front)
        ++ lf :: semicolon :: (back ++ crlf ++ (number ++ bytes " END")) := by
    simp [h]
  exact not_isFramed htext hline (by decide) (by decide) (by decide) (by decide)

end Replies

section Requests

variable {ftp left : FtpSession} {env : Env} {line param : Bytes} {cmd : FtpCmd}
  {reply : FtpReply}

/-- MLST, or STAT with a path. -/
def IsListingRequest (line : Bytes) : Prop :=
  getFtpCommand line = .ok .mlst ∨ getFtpCommand line = .ok .stat ∧ paramOf .stat line ≠ []

def internalError : FtpReply := { code := .bye, message := bytes "Internal server error" }

/-- What the command loop replies to a request. -/
def FtpSession.answerTo (ftp : FtpSession) (env : Env) (line : Bytes) : Option FtpReply :=
  match ftp.dispatch env line with
  | .ignore => none
  | .refuse reply => some reply
  | .handle cmd param =>
      match (Handled.mk env cmd param ftp).result with
      | .ok reply _ => reply
      | .error _ _ => some internalError

theorem replies_controlReply (env : Env) (reply : FtpReply) (next : AfterReply) (ftp : FtpSession) :
    (after (controlReply env reply next) ftp).replies
      = if ftp.canReply then ftp.replies ++ [reply] else ftp.replies := by
  by_cases hcan : ftp.canReply = true
  · rw [controlReply_of_canReply hcan, if_pos hcan]
  · unfold controlReply
    rw [after_bind_of_ok (EStateM.run_get ftp), if_neg hcan, if_neg hcan]
    exact (quiet_silent.afterReply env next ftp).replies

theorem replies_handled (env : Env) (cmd : FtpCmd) (reply : Option FtpReply) (ftp : FtpSession) :
    (after (handled env cmd reply) ftp).replies
      = if ftp.canReply then ftp.replies ++ reply.toList else ftp.replies := by
  let named : FtpSession := { ftp with prevCmdName := some cmd }
  cases reply with
  | some reply =>
      unfold handled
      rw [after_bind_of_returns (returns_modify _)]
      exact replies_controlReply env reply _ named
  | none => rw [(quiet_handled_none env cmd ftp).replies, Option.toList_none, List.append_nil, ite_self]

theorem replies_request (hcontrol : ftp.control = .fetching) :
    (ftp.step (.request env line)).replies
      = if ftp.canReply then ftp.replies ++ (ftp.answerTo env line).toList else ftp.replies := by
  have hstep : ftp.step (.request env line) = after (processRequest env line) ftp := if_pos hcontrol
  rw [hstep, after_processRequest, answerTo]
  cases ftp.dispatch env line with
  | ignore =>
      rw [Option.toList_none, List.append_nil, ite_self]
      exact (quiet_silent.nextCommand env ftp).replies
  | refuse reply => exact replies_controlReply env reply _ ftp
  | handle cmd param =>
      let entry : Handled := ⟨env, cmd, param, ftp⟩
      have htouches : Touches cmd ftp entry.after :=
        IsTrans.trans _ _ _ ((touches_frame cmd).calls ftp [])
          (touches_onCmd env param cmd entry.start)
      dsimp only
      rw [after_handle]
      change _ = if _ then _ ++ Option.toList (match entry.result with
        | .ok reply _ => reply
        | .error _ _ => some internalError) else _
      cases hresult : entry.result with
      | ok reply left =>
          rw [Handled.after, after_of_ok hresult] at htouches
          dsimp only
          rw [replies_handled, htouches.canReply, htouches.replies]
      | error e left =>
          rw [Handled.after, after_of_error hresult] at htouches
          dsimp only
          rw [replies_controlReply, htouches.canReply, htouches.replies]
          rfl

theorem newReply_request :
    ftp.newReply (.request env line) = some reply
      ↔ ftp.control = .fetching ∧ ftp.canReply = true ∧ ftp.answerTo env line = some reply := by
  unfold newReply
  by_cases hcontrol : ftp.control = .fetching
  · rw [replies_request hcontrol]
    cases ftp.canReply with
    | true => cases ftp.answerTo env line <;> simp [hcontrol]
    | false => simp
  · rw [show ftp.step (.request env line) = ftp from if_neg hcontrol]
    simp [hcontrol]

/-- The checks of `OnCommand` refuse a listing in one line. -/
theorem isPlain_of_refusal (hcmd : cmd = .mlst ∨ cmd = .stat) (h : ftp.refusal cmd = some reply) :
    reply.IsPlain := by
  have hplain : reply = { code := .notLoggedOn }
      ∨ reply = { code := .actionNotTaken, message := bytes "Active file transfer!" } := by
    unfold refusal at h
    simp only [ite_eq_iff, reduceCtorEq, and_false, or_false, Option.some.injEq] at h
    rcases hcmd with rfl | rfl
    · simp [FtpCmd.needPrevCmd, FtpCmd.mustNotBeLoggedIn, FtpCmd.mustBeInTransfer,
        FtpCmd.needPostOrPasv, FtpCmd.mustHaveEncryption] at h
      exact h.imp (fun h => h.2.symm) fun h => h.2.2.symm
    · simp [FtpCmd.needPrevCmd, FtpCmd.mustNotBeLoggedIn, FtpCmd.mustBeInTransfer,
        FtpCmd.mustNotBeInTransfer, FtpCmd.needPostOrPasv, FtpCmd.mustHaveEncryption] at h
      exact .inl h.2.symm
  rcases hplain with rfl | rfl
  · exact ⟨rfl, by decide⟩
  · exact ⟨rfl, by decide⟩

theorem isPlain_of_refuse (hrequest : IsListingRequest line)
    (h : ftp.dispatch env line = .refuse reply) : reply.IsPlain := by
  obtain ⟨cmd, hcmd, hget⟩ : ∃ cmd, (cmd = .mlst ∨ cmd = .stat) ∧ getFtpCommand line = .ok cmd :=
    hrequest.elim (fun hmlst => ⟨_, .inl rfl, hmlst⟩) fun hstat => ⟨_, .inr rfl, hstat.1⟩
  rw [dispatch, hget] at h
  dsimp only at h
  split at h
  · cases h
  · split at h
    · obtain rfl := Dispatch.refuse.inj h
      exact isPlain_of_refusal hcmd ‹_›
    · split at h
      · cases h
      · obtain rfl := Dispatch.refuse.inj h
        exact ⟨rfl, by decide⟩

end Requests

section Handlers

variable {ftp left : FtpSession} {env : Env} {param : Bytes} {path : Path} {reply : Option FtpReply}

/-- MLST comes to the listing of a path. -/
structure ListsFacts (ftp : FtpSession) (param : Bytes) (path : Path) : Prop where
  resolves : ftp.session.getPath param .any = .ok path
  found : path.existsOnDisk.run ftp.disk = .ok true ftp.disk
  canList : path.canList = true

theorem getMlstFacts_eq_ok {data : Bytes} :
    (getMlstFacts env path).run ftp = .ok data left
      ↔ env.mlstFacts path ftp.state = .ok data
        ∧ left = { ftp with calls := ftp.calls ++ [.getMlstFacts path] } :=
  lift_eq_ok.trans (and_congr_right fun _ => eq_comm)

theorem attempt_mlst_eq_ok :
    (∃ left, (FtpCmd.attempt env param .mlst).run ftp = .ok reply left)
      ↔ ∃ path data, ListsFacts ftp param path ∧ env.mlstFacts path ftp.state = .ok data
        ∧ reply = some (mlstReply param data) := by
  constructor
  · rintro ⟨left, h⟩
    obtain ⟨path, _, hpath, h⟩ := bind_eq_ok.mp h
    obtain ⟨hresolves, rfl⟩ := getPath_eq_ok.mp hpath
    obtain ⟨found, _, hexists, h⟩ := bind_eq_ok.mp h
    obtain ⟨disk, hfound, rfl⟩ := onSession_eq_ok.mp hexists
    obtain ⟨_, _, hrequire, h⟩ := bind_eq_ok.mp h
    obtain ⟨rfl, rfl⟩ := require_eq_ok.mp hrequire
    obtain ⟨_, _, hrequire, h⟩ := bind_eq_ok.mp h
    obtain ⟨hlist, rfl⟩ := require_eq_ok.mp hrequire
    obtain ⟨data, _, hdata, h⟩ := bind_eq_ok.mp h
    obtain ⟨hfacts, rfl⟩ := getMlstFacts_eq_ok.mp hdata
    obtain ⟨rfl, -⟩ := pure_eq_ok.mp h
    obtain rfl : ftp.disk = disk := (Path.existsOnDisk_eq_ok hfound).1
    exact ⟨path, data, ⟨hresolves, hfound, hlist⟩, hfacts, rfl⟩
  · rintro ⟨path, data, h, hfacts, rfl⟩
    let left : FtpSession :=
      { ftp with calls := ftp.calls ++ [.getPath param .any (.ok path)] ++ [.existsOnDisk path]
          ++ [.getMlstFacts path] }
    refine ⟨left, bind_eq_ok.mpr ⟨path, _, getPath_eq_ok.mpr ⟨h.resolves, rfl⟩, ?_⟩⟩
    refine bind_eq_ok.mpr ⟨true, _, onSession_eq_ok.mpr ⟨_, h.found, rfl⟩, ?_⟩
    refine bind_eq_ok.mpr ⟨⟨⟩, _, require_eq_ok.mpr ⟨rfl, rfl⟩, ?_⟩
    refine bind_eq_ok.mpr ⟨⟨⟩, _, require_eq_ok.mpr ⟨h.canList, rfl⟩, ?_⟩
    exact bind_eq_ok.mpr ⟨data, left, getMlstFacts_eq_ok.mpr ⟨hfacts, rfl⟩, rfl⟩

/-- The handler of MLST replies with the listing, or in one line that it has failed. -/
theorem mlst_eq_ok (h : (FtpCmd.mlst.onCmd env param).run ftp = .ok reply left) :
    (∃ path data, ListsFacts ftp param path ∧ env.mlstFacts path ftp.state = .ok data
        ∧ reply = some (mlstReply param data))
      ∨ ∃ plain, reply = some plain ∧ plain.IsPlain := by
  cases hbody : (FtpCmd.attempt env param .mlst).run ftp with
  | ok answer rest =>
      have hrun : (FtpCmd.mlst.onCmd env param).run ftp = .ok answer rest := tryCatch_of_ok hbody
      obtain ⟨rfl, rfl⟩ := EStateM.Result.ok.inj (hrun.symm.trans h)
      exact .inl (attempt_mlst_eq_ok.mp ⟨_, hbody⟩)
  | error e rest =>
      have hrun := (tryCatch_of_error hbody).symm.trans h
      obtain ⟨rfl, -⟩ := pure_eq_ok.mp hrun
      refine .inr ⟨_, rfl, rfl, ?_⟩
      by_cases hconnect : e = .failedToConnect
      · rw [if_pos hconnect]
        decide
      · rw [if_neg hconnect]
        decide

theorem mlst_of_listsFacts {data : Bytes} (h : ListsFacts ftp param path)
    (hfacts : env.mlstFacts path ftp.state = .ok data) :
    ∃ left, (FtpCmd.mlst.onCmd env param).run ftp = .ok (some (mlstReply param data)) left := by
  obtain ⟨left, hbody⟩ := attempt_mlst_eq_ok.mpr ⟨path, data, h, hfacts, rfl⟩
  exact ⟨left, tryCatch_of_ok hbody⟩

theorem stat_eq_ok (hpath : param ≠ []) (h : (FtpCmd.stat.onCmd env param).run ftp = .ok reply left) :
    (∃ listing, reply = some
        { code := .directoryStatus
          message := param ++ crlf ++ FtpCmdStat.indented listing
          multiLine := true })
      ∨ ∃ plain, reply = some plain ∧ plain.IsPlain := by
  have hlist : FtpCmd.stat.onCmd env param = FtpCmdStat.list env param :=
    if_neg (by simpa using hpath)
  rw [hlist] at h
  obtain ⟨args, asked, -, h⟩ := bind_eq_ok.mp h
  let body : Handler := do
    let path ← getPathForListing args.vpath
    let buffers ← listDirectory env args.format path
    Handler.verbose .directoryStatus (param ++ crlf ++ FtpCmdStat.indented buffers.flatten)
  cases hbody : body.run asked with
  | ok answer rest =>
      have hrun := (tryCatch_of_ok hbody).symm.trans h
      obtain ⟨rfl, -⟩ := EStateM.Result.ok.inj hrun
      obtain ⟨path, _, -, hbody⟩ := bind_eq_ok.mp hbody
      obtain ⟨buffers, _, -, hbody⟩ := bind_eq_ok.mp hbody
      obtain ⟨rfl, -⟩ := pure_eq_ok.mp hbody
      exact .inl ⟨buffers.flatten, rfl⟩
  | error e rest =>
      have hrun := (tryCatch_of_error hbody).symm.trans h
      obtain ⟨rfl, -⟩ := pure_eq_ok.mp hrun
      exact .inr ⟨_, rfl, rfl, by decide⟩

end Handlers

section Answers

variable {ftp : FtpSession} {env : Env} {line : Bytes} {reply : FtpReply}

theorem internalError_isPlain : internalError.IsPlain := ⟨rfl, by decide⟩

/-- A listing request is answered with a listing, or in one line. -/
theorem answerTo_eq_some (hrequest : IsListingRequest line) (h : ftp.answerTo env line = some reply) :
    reply.IsPlain
      ∨ (∃ listing, reply =
          { code := .directoryStatus
            message := paramOf .stat line ++ crlf ++ FtpCmdStat.indented listing
            multiLine := true })
      ∨ ∃ path data, ftp.dispatch env line = .handle .mlst (paramOf .mlst line)
          ∧ ListsFacts ftp (paramOf .mlst line) path ∧ env.mlstFacts path ftp.state = .ok data
          ∧ reply = mlstReply (paramOf .mlst line) data := by
  unfold answerTo at h
  cases hdispatch : ftp.dispatch env line with
  | ignore => simp [hdispatch] at h
  | refuse refused =>
      rw [hdispatch] at h
      obtain rfl := Option.some.inj h
      exact .inl (isPlain_of_refuse hrequest hdispatch)
  | handle cmd param =>
      rw [hdispatch] at h
      obtain ⟨hget, -, -, rfl, -⟩ := dispatch_eq_handle hdispatch
      let entry : Handled := ⟨env, cmd, paramOf cmd line, ftp⟩
      change (match entry.result with
        | .ok reply _ => reply
        | .error _ _ => some internalError) = some reply at h
      cases hresult : entry.result with
      | error e left =>
          rw [hresult] at h
          obtain rfl := Option.some.inj h
          exact .inl internalError_isPlain
      | ok answer left =>
          rw [hresult] at h
          obtain rfl : answer = some reply := h
          rcases hrequest with hmlst | ⟨hstat, hparam⟩
          · obtain rfl := Except.ok.inj (hget.symm.trans hmlst)
            rcases mlst_eq_ok hresult with ⟨path, data, hlists, hdata, hreply⟩
              | ⟨plain, hreply, hplain⟩
            · exact .inr (.inr ⟨path, data, rfl, ⟨hlists.resolves, hlists.found, hlists.canList⟩,
                hdata, Option.some.inj hreply⟩)
            · exact .inl (Option.some.inj hreply ▸ hplain)
          · obtain rfl := Except.ok.inj (hget.symm.trans hstat)
            rcases stat_eq_ok hparam hresult with ⟨listing, hreply⟩ | ⟨plain, hreply, hplain⟩
            · exact .inr (.inl ⟨listing, Option.some.inj hreply⟩)
            · exact .inl (Option.some.inj hreply ▸ hplain)

end Answers

section Framing

variable {ftp : FtpSession} {env : Env} {line : Bytes} {gmtime : Gmtime} {host : Host} {path : Path}

/-- The request is answered with the line of MLST for a path, and the size in it has more characters
than the 16 that `snprintf` is told to write at most. -/
structure PrintsLongSize (ftp : FtpSession) (host : Host) (env : Env) (line : Bytes) (path : Path) :
    Prop where
  fetching : ftp.control = .fetching
  canReply : ftp.canReply = true
  handled : ftp.dispatch env line = .handle .mlst (paramOf .mlst line)
  lists : ListsFacts ftp (paramOf .mlst line) path
  enabled : ftp.state.mdtxState.isEnabled .size = true
  room : path.vpath.length + 128 < DirListerMlst.bufferSize
  long : 16 < (longLong (host.stat path.ppath).size).length

theorem PrintsLongSize.newReply (h : PrintsLongSize ftp host env line path) (gmtime : Gmtime)
    {buffer : Bytes} (hsize : buffer.length = DirListerMlst.bufferSize) :
    ftp.newReply (.request (env.withMlst gmtime host buffer) line)
      = some (mlstReply (paramOf .mlst line)
          (DirListerMlst.mlstText host buffer path ftp.state)) := by
  have hfacts : (env.withMlst gmtime host buffer).mlstFacts path ftp.state
      = .ok (DirListerMlst.mlstText host buffer path ftp.state) :=
    (DirListerMlst.getMlstFacts_eq gmtime host buffer path ftp.state).trans
      (by rw [hsize, if_neg (Nat.not_le.mpr h.room)])
  have hlists : ListsFacts { ftp with calls := [] } (paramOf .mlst line) path :=
    ⟨h.lists.resolves, h.lists.found, h.lists.canList⟩
  obtain ⟨left, hrun⟩ := mlst_of_listsFacts hlists hfacts
  have hhandled : ftp.dispatch (env.withMlst gmtime host buffer) line
      = .handle .mlst (paramOf .mlst line) := h.handled
  refine newReply_request.mpr ⟨h.fetching, h.canReply, ?_⟩
  rw [answerTo, hhandled]
  dsimp only
  rw [Handled.result, Handled.start, hrun]

/-- Where the memory holds a line feed behind such a size, a line of the reply starts with the
semicolon. -/
theorem PrintsLongSize.not_isFramed (h : PrintsLongSize ftp host env line path) {buffer : Bytes}
    (hbuffer : buffer.getD ((longLong (host.stat path.ppath).size).length + 5) 0 = lf)
    (param : Bytes) :
    ¬ (mlstReply param (DirListerMlst.mlstText host buffer path ftp.state)).IsFramed := by
  obtain ⟨front, back, hdata⟩ : ∃ front back, DirListerMlst.mlstText host buffer path ftp.state
      = front ++ buffer.getD ((longLong (host.stat path.ppath).size).length + 5) 0
        :: semicolon :: back := DirListerMlst.mlstText_of_long h.enabled h.long
  rw [hbuffer] at hdata
  exact not_isFramed_mlst hdata

/-- **Listings in replies.** In a session whose requests hold no line end the reply of STAT with a
path is framed whatever the directory holds, and so is that of MLST, for all that the memory of its
buffer may hold, unless it prints a size that has no room. -/
theorem listingReply_isFramed_iff (permissions : Permissions) (disk : Disk) (segmentSize : Nat)
    {front : List Event} (hfront : ∀ event ∈ front, event.IsPlain) (env : Env) {line : Bytes}
    (hline : IsLineText line) (hrequest : IsListingRequest line) (gmtime : Gmtime) (host : Host)
    (hsizes : ∀ ppath, (host.stat ppath).size < 2 ^ 64) :
    (∀ (buffer : { memory : Bytes // memory.length = DirListerMlst.bufferSize }) (reply : FtpReply),
        ((fresh permissions disk segmentSize).run front).newReply
          (.request (env.withMlst gmtime host buffer.val) line) = some reply → reply.IsFramed)
      ↔ ¬ ∃ path, PrintsLongSize ((fresh permissions disk segmentSize).run front) host env line path := by
  have hcwd := plainCwd_run permissions disk segmentSize hfront
  generalize (fresh permissions disk segmentSize).run front = ftp at hcwd
  constructor
  · rintro hframed ⟨path, hlong⟩
    let buffer : Bytes := List.replicate DirListerMlst.bufferSize lf
    have hbuffer : buffer.length = DirListerMlst.bufferSize := List.length_replicate
    have hlt : (longLong (host.stat path.ppath).size).length + 5 < buffer.length := by
      have hwidth := length_longLong_le (hsizes path.ppath)
      rw [hbuffer, DirListerMlst.bufferSize]
      omega
    have hlf : buffer.getD ((longLong (host.stat path.ppath).size).length + 5) 0 = lf := by
      rw [List.getD_eq_getElem?_getD, List.getElem?_replicate_of_lt (hbuffer ▸ hlt),
        Option.getD_some]
    exact hlong.not_isFramed hlf _ (hframed ⟨buffer, hbuffer⟩ _ (hlong.newReply gmtime hbuffer))
  · intro hnot buffer reply hreply
    obtain ⟨hcontrol, hcan, hanswer⟩ := newReply_request.mp hreply
    rcases answerTo_eq_some hrequest hanswer with hplain | ⟨listing, rfl⟩
      | ⟨path, data, hdispatch, hlists, hdata, rfl⟩
    · exact hplain.isFramed
    · exact isFramed_stat (isLineText_paramOf hline .stat) listing
    · have hparam : IsLineText (paramOf .mlst line) := isLineText_paramOf hline .mlst
      have hfacts := DirListerMlst.getMlstFacts_eq gmtime host buffer.val path ftp.state
      obtain rfl := Except.ok.inj (hfacts.symm.trans hdata)
      by_cases hroom : buffer.val.length ≤ path.vpath.length + 128
      · rw [if_pos hroom]
        exact isFramed_mlst hparam (by decide) (.inl rfl)
      · rw [if_neg hroom]
        refine isFramed_mlst hparam (DirListerMlst.isLineText_mlstText ?_ fun henabled => ?_)
          (.inr DirListerMlst.space_prefix_mlstText)
        · exact Session.getPath_isLineText hcwd hparam hlists.resolves
        · by_contra hlong
          refine hnot ⟨path, hcontrol, hcan, hdispatch, hlists, henabled, ?_, Nat.lt_of_not_le hlong⟩
          rw [← buffer.property]
          exact Nat.lt_of_not_le hroom

/-- A server that lets everyone list what is in `srv`. -/
def listMount : Permissions :=
  ⟨[.make [slash] [bytes "srv"] (Path.toPermBits [.canList, .isRecursive])], by decide, by decide⟩

def hostOfSize (size : Nat) : Host where
  stat _ := { size }
  released := id

/-- The session after the login, where every file has two bytes. -/
theorem listingReply_isFramed_mlst :
    let ftp := (fresh listMount (oneFileDisk [7, 8]) 4096).run loggedIn
    (¬ ∃ path, PrintsLongSize ftp (hostOfSize 2) joeEnv (bytes "MLST a") path)
      ∧ ∀ (buffer : { memory : Bytes // memory.length = DirListerMlst.bufferSize })
        (reply : FtpReply), ftp.newReply (.request (joeEnv.withMlst (fun _ => none) (hostOfSize 2)
          buffer.val) (bytes "MLST a")) = some reply → reply.IsFramed := by
  intro ftp
  have huser : IsLineText (bytes "USER joe") := by decide
  have hfront : ∀ event ∈ loggedIn, event.IsPlain := by
    simpa [loggedIn, exchange, Event.IsPlain] using huser
  have hline : IsLineText (bytes "MLST a") := by decide
  have hfits : ¬ ∃ path, PrintsLongSize ftp (hostOfSize 2) joeEnv (bytes "MLST a") path := by
    rintro ⟨path, hlong⟩
    exact absurd hlong.long (by decide : ¬ 16 < (longLong 2).length)
  exact ⟨hfits, (listingReply_isFramed_iff listMount (oneFileDisk [7, 8]) 4096 hfront joeEnv hline
    (.inl rfl) (fun _ => none) (hostOfSize 2) fun _ => (by decide : 2 < 2 ^ 64)).mpr hfits⟩

/-- What an MLST has left in the memory of its buffer. -/
def usedMemory : Bytes :=
  let line := bytes " Size=2; /pub/abc.txt" ++ crlf
  line ++ List.replicate (DirListerMlst.bufferSize - line.length) 0

theorem listingReply_not_isFramed :
    let ftp := (fresh listMount (oneFileDisk (List.replicate (10 ^ 16) 0)) 4096).run loggedIn
    let request : Event :=
      .request (joeEnv.withMlst (fun _ => none) (hostOfSize (10 ^ 16)) usedMemory) (bytes "MLST a")
    let reply := mlstReply (bytes "a") (bytes " Size=100000000000000" ++ [0, lf] ++ bytes "; /a")
    ftp.newReply request = some reply ∧ ¬ reply.IsFramed := by
  intro ftp request reply
  obtain ⟨path, hresolves, hvpath, hfound, hcanList⟩ :
      ∃ path, ftp.session.getPath (bytes "a") .any = .ok path ∧ path.vpath = bytes "/a"
        ∧ path.existsOnDisk.run ftp.disk = .ok true ftp.disk ∧ path.canList = true :=
    ⟨_, rfl, by decide +kernel, rfl, by decide +kernel⟩
  have hlong : PrintsLongSize ftp (hostOfSize (10 ^ 16)) joeEnv (bytes "MLST a") path :=
    { fetching := by decide +kernel
      canReply := by decide +kernel
      handled := rfl
      lists := ⟨hresolves, hfound, hcanList⟩
      enabled := by decide +kernel
      room := by
        rw [hvpath]
        decide
      long := (by decide +kernel : 16 < (longLong (10 ^ 16)).length) }
  have hmemory : usedMemory.length = DirListerMlst.bufferSize := by
    rw [usedMemory, List.length_append, List.length_replicate]
    exact Nat.add_sub_of_le (by decide)
  have htext : DirListerMlst.mlstText (hostOfSize (10 ^ 16)) usedMemory path ftp.state
      = bytes " Size=100000000000000" ++ [0, lf] ++ bytes "; /a" := by
    have hsize : MlsdFormat.sizeText (fun i => usedMemory.getD i 0) (10 ^ 16)
        = bytes "100000000000000" ++ [0, lf] := by decide +kernel
    rw [DirListerMlst.mlstText, hvpath, if_pos hlong.enabled,
      show ((hostOfSize (10 ^ 16)).stat path.ppath).size = 10 ^ 16 from rfl, hsize]
    rfl
  have hparam : paramOf .mlst (bytes "MLST a") = bytes "a" := by decide
  have hreply := hlong.newReply (fun _ => none) hmemory
  have hlf : usedMemory.getD ((longLong (10 ^ 16)).length + 5) 0 = lf := by decide +kernel
  have hnot := hlong.not_isFramed hlf (bytes "a")
  rw [hparam, htext] at hreply
  rw [htext] at hnot
  exact ⟨hreply, hnot⟩

end Framing

end Wfde
