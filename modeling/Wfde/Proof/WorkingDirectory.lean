import Wfde.Lib.Run
import Wfde.Proof.Confinement
import Wfde.Proof.NormalizeTwice

/-!
# The working directory

`SetCwd` does not keep the normalised path: it keeps the virtual path that `GetPath` rebuilds from
the matched entry and what is left behind it. That is the normalised path if the entry is an
ancestor of it, component by component.
-/

namespace Wfde

open Segments Permissions

namespace Path

theorem split_toVpath_unrooted {parts : List Bytes} (hparts : ∀ part ∈ parts, IsSegment slash part) :
    split (toVpath parts false) = parts := by
  have hrooted := split_toVpath hparts
  cases parts with
  | nil => rfl
  | cons part parts =>
      rw [toVpath_cons, split_eq, joined_cons, List.cons_append, segments_cons_sep] at hrooted
      rw [split_eq]
      simpa [toVpath, appendParts, appendParts_eq] using hrooted

theorem isSegment_of_mem_split {text part : Bytes} (hpart : part ∈ split text) :
    IsSegment slash part :=
  isSegment_of_mem_segments (split_eq text ▸ hpart)

theorem normalize_up {dir normal : Bytes} (h : normalize (bytes "..") dir = .ok normal) :
    normal = toVpath (split dir).dropLast := by
  have hup : normalizeAndSplit (bytes "..") dir
      = if (split dir).isEmpty then .error .accessDenied else .ok (split dir).dropLast := rfl
  rw [normalize, hup] at h
  cases hempty : (split dir).isEmpty with
  | true => simp [hempty] at h
  | false =>
      rw [hempty, if_neg Bool.false_ne_true] at h
      exact (Except.ok.inj h).symm

end Path

/-- An entry that is an ancestor of a path, or ends where the path ends. -/
theorem toVpath_split_append_iff {normal : Bytes} {entry : Path}
    (hentry : IsNormalised entry.vpath) (hnormal : IsNormalised normal) (hne : entry.vpath ≠ normal) :
    Path.toVpath (Path.split entry.vpath
        ++ Path.split (normal.drop (skipSlashes normal entry.vpath.length))) = normal
      ↔ IsAncestor entry.vpath normal := by
  constructor
  · intro hsame
    have hsegments : ∀ part ∈ Path.split entry.vpath
        ++ Path.split (normal.drop (skipSlashes normal entry.vpath.length)), IsSegment slash part := by
      intro part hpart
      rcases List.mem_append.mp hpart with hpart | hpart
      · exact Path.isSegment_of_mem_split hpart
      · exact Path.isSegment_of_mem_split hpart
    have hsplit := congrArg Path.split hsame
    rw [Path.split_toVpath hsegments] at hsplit
    refine ⟨⟨_, hsplit⟩, fun heq => hne ?_⟩
    rw [← hentry.split, heq, hnormal.split]
  · intro hancestor
    obtain ⟨-, -, hdrop⟩ := hancestor.drop hentry hnormal
    obtain ⟨⟨more, hmore⟩, -⟩ := hancestor
    have hsegments : ∀ part ∈ more, IsSegment slash part := by
      intro part hpart
      have hmem : part ∈ Path.split normal := hmore ▸ List.mem_append_right _ hpart
      exact Path.isSegment_of_mem_split hmem
    rw [hdrop, ← hmore, List.drop_left, Path.split_toVpath_unrooted hsegments, hmore]
    exact hnormal.split

namespace Permissions

/-- What a lookup that succeeds has found: the entry of the path, or the longest configured prefix of
it, which is recursive. -/
theorem getPath_eq_ok {perms : Permissions} (hperms : ∀ path ∈ perms.paths, IsNormalised path.vpath)
    {vpath : Bytes} {entry : Path} {remaining : Option Bytes}
    (h : perms.getPath vpath (some []) = .ok (entry, remaining)) :
    entry ∈ perms.paths ∧ (entry.vpath = vpath ∧ remaining = some []
      ∨ (∀ path ∈ perms.paths, path.vpath ≠ vpath) ∧ perms.IsLongestPrefix vpath entry
        ∧ entry.isRecursive = true
        ∧ remaining = some (vpath.drop (skipSlashes vpath entry.vpath.length))) := by
  refine ⟨(getPath_mem h).1, ?_⟩
  by_cases hexact : ∃ path ∈ perms.paths, path.vpath = vpath
  · obtain ⟨path, hpath, hvpath⟩ := hexact
    rw [perms.getPath_exact hpath hvpath] at h
    obtain ⟨rfl, rfl⟩ : path = entry ∧ some [] = remaining := by simpa using h
    exact .inl ⟨hvpath, rfl⟩
  · have hnone : ∀ path ∈ perms.paths, path.vpath ≠ vpath := fun path hpath hvpath =>
      hexact ⟨path, hpath, hvpath⟩
    have hrooted : ∀ path ∈ perms.paths, path.vpath ≠ [] := fun path hpath =>
      (hperms path hpath).ne_nil
    rcases perms.getPath_cases hrooted hnone (some []) with ⟨-, hdenied⟩ | ⟨path, hlongest, hresult⟩
    · rw [hdenied] at h
      cases h
    · rw [hresult] at h
      split at h
      · rename_i hrec
        rw [assignRemaining] at h
        split at h
        · cases h
        · obtain ⟨rfl, rfl⟩ : path = entry
              ∧ some (vpath.drop (skipSlashes vpath path.vpath.length)) = remaining := by
            simpa [Except.map] using h
          exact .inr ⟨hnone, hlongest, hrec, rfl⟩
      · cases h

end Permissions

theorem Session.getPath_eq_ok {session : Session} {vpath : Bytes} {type : PathType} {path : Path}
    (h : session.getPath vpath type = .ok path) :
    ∃ normal, Path.normalize vpath session.cwd = .ok normal
      ∧ ∃ entry remaining, session.permissions.getPath normal (some []) = .ok (entry, remaining)
        ∧ path = entry.createSubpath (remaining.getD []) type := by
  unfold Session.getPath at h
  cases hnormal : Path.normalize vpath session.cwd with
  | error e => simp [hnormal, bind, Except.bind] at h
  | ok normal =>
      cases hlookup : session.permissions.getPath normal (some []) with
      | error e => simp [hnormal, hlookup, bind, Except.bind] at h
      | ok found =>
          obtain ⟨entry, remaining⟩ := found
          refine ⟨normal, rfl, entry, remaining, hlookup, ?_⟩
          simpa [hnormal, hlookup, bind, Except.bind, pure, Except.pure] using h.symm

/-- The recursive entry that a lookup of the path falls back on is an ancestor of the path, and the
path is one that is normalised to itself. -/
def StaysOnPath (perms : Permissions) (cwd path : Bytes) : Prop :=
  Resolver.KeepsSettled path cwd
    ∧ ∀ normal, Path.normalize path cwd = .ok normal →
      (∀ entry ∈ perms.paths, entry.vpath ≠ normal) →
      ∀ entry, perms.IsLongestPrefix normal entry → entry.isRecursive = true →
        IsAncestor entry.vpath normal

/-- A call of `SetCwd` with what it finds on the disk. The session of a call that throws is the one
before. -/
def Session.changeDir (self : Session) (call : Bytes × Disk) : Session := self.changeDirs [call]

/-- What `SetCwd` promises. -/
structure Follows (session : Session) (call : Bytes × Disk) : Prop where
  changed : ∀ changed disk, (session.setCwd call.1).run call.2 = .ok changed disk →
    Path.normalize call.1 session.cwd = .ok changed.cwd
      ∧ ∀ dir, Path.normalize changed.cwd dir = .ok changed.cwd
  unchanged : ∀ e disk, (session.setCwd call.1).run call.2 = .error e disk →
    (session.changeDir call).cwd = session.cwd
  /-- `CDUP` leads back from a directory directly below. -/
  returns : ∀ changed disk name, (session.setCwd call.1).run call.2 = .ok changed disk →
    Path.split changed.cwd = Path.split session.cwd ++ [name] →
    StaysOnPath changed.permissions changed.cwd (bytes "..") →
    ∀ disk' back disk'', (changed.setCwd (bytes "..")).run disk' = .ok back disk'' →
      back.cwd = session.cwd

section Step

variable {session changed : Session} {path : Bytes} {disk disk' : Disk}
  (hperms : ∀ path ∈ session.permissions.paths, IsNormalised path.vpath)

include hperms

/-- One call that succeeds sets the path it was asked for if and only if it stays on it. -/
theorem setCwd_follows_iff (h : (session.setCwd path).run disk = .ok changed disk') :
    (Path.normalize path session.cwd = .ok changed.cwd
        ∧ ∀ dir, Path.normalize changed.cwd dir = .ok changed.cwd)
      ↔ StaysOnPath session.permissions session.cwd path := by
  obtain ⟨dir, hdir, rfl⟩ := setCwd_eq_ok h
  obtain ⟨normal, hnormal, entry, remaining, hlookup, rfl⟩ := Session.getPath_eq_ok hdir
  obtain ⟨hmem, hfound⟩ := Permissions.getPath_eq_ok hperms hlookup
  have hvpath := (Path.createSubpath_eq (hperms entry hmem) (remaining.getD []) .directory).2
  have hcwd : Path.normalize path session.cwd
        = .ok (entry.createSubpath (remaining.getD []) .directory).vpath
      ↔ (entry.createSubpath (remaining.getD []) .directory).vpath = normal := by
    rw [hnormal, Except.ok.injEq, eq_comm]
  unfold StaysOnPath
  rw [hcwd, Resolver.keepsSettled_iff hnormal, hvpath]
  rcases hfound with ⟨hexact, rfl⟩ | ⟨hnone, hlongest, hrec, rfl⟩
  · have hsame : Path.toVpath (Path.split entry.vpath ++ Path.split ((some []).getD [])) = normal := by
      rw [show Path.split ((some ([] : Bytes)).getD []) = [] from rfl, List.append_nil,
        (hperms entry hmem).split, hexact]
    rw [hsame]
    constructor
    · rintro ⟨-, hsettled⟩
      refine ⟨hsettled, fun other hother hno => ?_⟩
      obtain rfl : normal = other := by simpa [hnormal] using hother
      exact absurd hexact (hno entry hmem)
    · rintro ⟨hsettled, -⟩
      exact ⟨rfl, hsettled⟩
  · have hne := hnone entry hmem
    rw [Option.getD_some]
    constructor
    · rintro ⟨hsame, hsettled⟩
      rw [hsame] at hsettled
      refine ⟨hsettled, fun other hother _ best hbest _ => ?_⟩
      obtain rfl : normal = other := by simpa [hnormal] using hother
      obtain rfl := hlongest.unique hbest
      exact (toVpath_split_append_iff (hperms entry hmem) (hsettled [slash]) hne).mp hsame
    · rintro ⟨hsettled, hancestor⟩
      have hsame := (toVpath_split_append_iff (hperms entry hmem) (hsettled [slash]) hne).mpr
        (hancestor normal hnormal hnone entry hlongest hrec)
      rw [hsame]
      exact ⟨rfl, hsettled⟩

theorem setCwd_up_eq {parts : List Bytes} {name : Bytes} {back : Session} {disk'' : Disk}
    (hparts : ∀ part ∈ parts, IsSegment slash part) (hcwd : session.cwd = Path.toVpath (parts ++ [name]))
    (hname : IsSegment slash name) (h : (session.setCwd (bytes "..")).run disk = .ok back disk'')
    (hstays : StaysOnPath session.permissions session.cwd (bytes "..")) :
    back.cwd = Path.toVpath parts := by
  obtain ⟨hback, -⟩ := (setCwd_follows_iff hperms h).mpr hstays
  have hboth : ∀ part ∈ parts ++ [name], IsSegment slash part := by
    intro part hpart
    rcases List.mem_append.mp hpart with hpart | hpart
    · exact hparts part hpart
    · exact List.mem_singleton.mp hpart ▸ hname
  rw [Path.normalize_up hback, hcwd, Path.split_toVpath hboth, List.dropLast_concat]

theorem follows_of_staysOnPath {call : Bytes × Disk} (hcwd : IsNormalised session.cwd)
    (hstays : StaysOnPath session.permissions session.cwd call.1) : Follows session call := by
  constructor
  · intro changed disk h
    exact (setCwd_follows_iff hperms h).mpr hstays
  · intro e disk h
    simp [Session.changeDir, Session.changeDirs, h]
  · intro changed disk name h hbelow hup disk' back disk'' hback
    obtain ⟨-, hsettled⟩ := (setCwd_follows_iff hperms h).mpr hstays
    obtain ⟨dir, -, hchanged⟩ := setCwd_eq_ok h
    have hname : IsSegment slash name := by
      apply Path.isSegment_of_mem_split
      rw [hbelow]
      exact List.mem_append_right _ (List.mem_singleton_self name)
    have hbelow' : changed.cwd = Path.toVpath (Path.split session.cwd ++ [name]) := by
      rw [← hbelow]
      exact (IsNormalised.split (hsettled [slash])).symm
    have hpermissions : ∀ path ∈ changed.permissions.paths, IsNormalised path.vpath := by
      rw [hchanged]
      exact hperms
    rw [setCwd_up_eq hpermissions (fun part hpart => Path.isSegment_of_mem_split hpart) hbelow' hname
      hback hup, hcwd.split]

end Step

theorem changeDir_cases (session : Session) (call : Bytes × Disk) :
    (∃ changed disk, (session.setCwd call.1).run call.2 = .ok changed disk
        ∧ session.changeDir call = changed)
      ∨ session.changeDir call = session := by
  unfold Session.changeDir Session.changeDirs
  cases hrun : (session.setCwd call.1).run call.2 with
  | ok changed disk => exact .inl ⟨changed, disk, rfl, rfl⟩
  | error e disk => exact .inr rfl

theorem changeDir_permissions (session : Session) (call : Bytes × Disk) :
    (session.changeDir call).permissions = session.permissions := by
  rcases changeDir_cases session call with ⟨changed, disk, hrun, hchanged⟩ | hunchanged
  · rw [hchanged]
    obtain ⟨dir, -, rfl⟩ := setCwd_eq_ok hrun
    rfl
  · rw [hunchanged]

/-- **The working directory.** In a run of `SetCwd` calls of which every one stays on its path, every
one that succeeds sets the normalised path, every one that throws leaves the directory, and `CDUP`
leads back. -/
theorem changeDirs_follows (perms : Permissions)
    (hperms : ∀ path ∈ perms.paths, IsNormalised path.vpath) (calls : List (Bytes × Disk))
    (hstays : Machine.Along Session.changeDir
      (fun session call => StaysOnPath session.permissions session.cwd call.1)
      { permissions := perms } calls) :
    Machine.Along Session.changeDir Follows { permissions := perms } calls := by
  refine Machine.Along.imp Session.changeDir
    (fun session => session.permissions = perms ∧ IsNormalised session.cwd) ?_ ?_
    ⟨rfl, show IsNormalised [slash] by decide⟩ hstays
  · rintro session call hcall ⟨hsame, hcwd⟩
    refine ⟨(changeDir_permissions session call).trans hsame, ?_⟩
    rcases changeDir_cases session call with ⟨changed, disk, hrun, hchanged⟩ | hunchanged
    · rw [hchanged]
      exact ((setCwd_follows_iff (by rwa [hsame]) hrun).mpr hcall).2 [slash]
    · rwa [hunchanged]
  · rintro session call hcall ⟨hsame, hcwd⟩
    exact follows_of_staysOnPath (by rwa [hsame]) hcwd hcall

/-- Two directories that may be entered, with whatever is below them. -/
def openMounts : Permissions :=
  ⟨[.make (bytes "/") [bytes "srv"] (Path.toPermBits [.canEnter, .isRecursive]),
      .make (bytes "/pub") [bytes "pub"] (Path.toPermBits [.canEnter, .isRecursive])],
    by decide, by decide⟩

def directories (ppaths : List PPath) : Disk :=
  { files :=
      { node := fun path => if path ∈ ppaths then some .directory else none
        refuses := fun _ _ => false }
    performed := [] }

theorem staysOnPath_openMounts {cwd path : Bytes} (normal : Bytes)
    (hnormal : Path.normalize path cwd = .ok normal)
    (hsettled : ∀ dir, Path.normalize normal dir = .ok normal)
    (hancestor : (∃ entry ∈ openMounts.paths, entry.vpath = normal)
      ∨ ∀ entry ∈ openMounts.paths, IsCharPrefix entry.vpath normal → IsAncestor entry.vpath normal) :
    StaysOnPath openMounts cwd path := by
  refine ⟨(Resolver.keepsSettled_iff hnormal).mpr hsettled, fun other hother hnone entry hbest _ => ?_⟩
  obtain rfl : normal = other := by simpa [hnormal] using hother
  rcases hancestor with ⟨exact, hmem, hvpath⟩ | hall
  · exact absurd hvpath (hnone exact hmem)
  · exact hall entry hbest.1 hbest.2.1

/-- Into `/pub/docs` and back to `/pub`. -/
theorem changeDirs_follows_docs :
    let disk := directories [[bytes "srv"], [bytes "pub"], [bytes "pub", bytes "docs"]]
    Machine.Along Session.changeDir Follows { permissions := openMounts }
      [(bytes "pub/docs", disk), (bytes "..", disk)] := by
  intro disk
  refine changeDirs_follows openMounts (by decide) _ ⟨?_, ?_, trivial⟩
  · exact staysOnPath_openMounts (bytes "/pub/docs") rfl (fun dir => rfl) (.inr (by decide))
  · have hcwd : (Session.changeDir { permissions := openMounts } (bytes "pub/docs", disk)).cwd
        = bytes "/pub/docs" := by decide +kernel
    beta_reduce
    rw [changeDir_permissions, hcwd]
    exact staysOnPath_openMounts (bytes "/pub") rfl (fun dir => rfl) (.inl (by decide))

/-- `/public` is below no entry but the root. The working directory becomes `/pub/lic`. -/
theorem not_follows_public :
    let disk := directories [[bytes "srv"], [bytes "pub"], [bytes "pub", bytes "lic"]]
    (∀ path ∈ openMounts.paths, IsNormalised path.vpath)
      ∧ Path.normalize (bytes "public") [slash] = .ok (bytes "/public")
      ∧ (Session.changeDir { permissions := openMounts } (bytes "public", disk)).cwd = bytes "/pub/lic"
      ∧ ¬ Machine.Along Session.changeDir Follows { permissions := openMounts }
        [(bytes "public", disk)] := by
  intro disk
  refine ⟨by decide, by decide, by decide +kernel, fun hfollows => ?_⟩
  obtain ⟨changed, disk', hrun, hcwd⟩ : ∃ changed disk',
      (Session.setCwd { permissions := openMounts } (bytes "public")).run disk = .ok changed disk'
        ∧ changed.cwd = bytes "/pub/lic" := ⟨_, _, rfl, by decide +kernel⟩
  have hsame := (hfollows.1.changed changed disk' hrun).1
  rw [hcwd] at hsame
  exact absurd hsame (by decide)

end Wfde
