import Wfde.Session
import Wfde.Proof.Lookup

/-!
# Confinement

Whatever a client asks for, `GetPath` stays below the configured directories: the working directory
holds no `..` in any reachable state, nor does any path it is resolved against.
-/

namespace Wfde

open Segments

namespace Path

theorem makeValid_toVpath (parts : List Bytes) : makeValid (toVpath parts) = toVpath parts := by
  cases parts with
  | nil => rfl
  | cons part parts => simp [toVpath_cons, makeValid]

theorem toVpath_append_singleton {parts : List Bytes} (part : Bytes)
    (hparts : ∀ part ∈ parts, IsSegment slash part) :
    (if (toVpath parts).length > 1 then toVpath parts ++ [slash] else toVpath parts) ++ part
      = toVpath (parts ++ [part]) := by
  cases parts with
  | nil => simp [toVpath_nil, toVpath_cons]
  | cons first others =>
      have hfirst : 0 < first.length := List.length_pos_iff.mpr (hparts first (by simp)).1
      have hlong : (toVpath (first :: others)).length > 1 := by
        rw [toVpath_cons, joined_cons]
        simp only [List.length_append, List.length_cons]
        omega
      rw [if_pos hlong, List.cons_append, toVpath_cons, toVpath_cons, ← List.cons_append,
        joined_append, joined_cons part, joined_nil]
      simp

theorem foldl_descend {parts more : List Bytes} (ppath : PPath)
    (hparts : ∀ part ∈ parts, IsSegment slash part) (hmore : ∀ part ∈ more, IsSegment slash part) :
    more.foldl descend (ppath, toVpath parts) = (ppath ++ more, toVpath (parts ++ more)) := by
  induction more generalizing ppath parts with
  | nil => simp
  | cons part more ih =>
      have hboth : ∀ other ∈ parts ++ [part], IsSegment slash other := by
        intro other hother
        rcases List.mem_append.mp hother with hother | hother
        · exact hparts other hother
        · exact hmore other (by simp_all)
      rw [List.foldl_cons, descend, toVpath_append_singleton part hparts,
        ih _ hboth fun other hother => hmore other (by simp [hother])]
      simp

theorem createSubpath_eq {path : Path} (hpath : IsNormalised path.vpath) (subPath : Bytes)
    (pathType : PathType) :
    (path.createSubpath subPath pathType).ppath = path.ppath ++ split subPath
      ∧ (path.createSubpath subPath pathType).vpath = toVpath (split path.vpath ++ split subPath) := by
  obtain ⟨parts, hparts, hvpath⟩ := hpath.names
  have hsegments : ∀ part ∈ parts, IsSegment slash part := fun part hpart => (hparts part hpart).1
  have hsub : ∀ part ∈ split subPath, IsSegment slash part := fun part hpart =>
    isSegment_of_mem_segments (split_eq subPath ▸ hpart)
  have hfold := foldl_descend path.ppath hsegments hsub
  unfold createSubpath
  rw [hvpath, hfold, split_toVpath hsegments]
  exact ⟨rfl, makeValid_toVpath _⟩

end Path

namespace Permissions

theorem walk_mem {vpath : Bytes} {paths : List Path} {path : Path} (remainingIt : Nat)
    (h : walk vpath none paths = .full path ∨ walk vpath none paths = .best (some (path, remainingIt))) :
    path ∈ paths := by
  rw [walk_eq] at h
  cases hfind : paths.find? (·.vpath == vpath) with
  | some found =>
      obtain rfl : found = path := by simpa [hfind] using h
      exact List.mem_of_find?_eq_some hfind
  | none =>
      cases hlast : (paths.filter (isMatch vpath)).getLast? with
      | none => simp [hfind, hlast] at h
      | some found =>
          have hbest : bestOf vpath found = some (path, remainingIt) := by
            simpa [hfind, hlast] using h
          unfold bestOf at hbest
          split at hbest
          · obtain ⟨rfl, -⟩ : found = path ∧ _ := by simpa using hbest
            exact (PrefixSearch.mem_of_getLast?_filter hlast).1
          · simp at hbest

/-- A lookup gives an entry, and what is left of the path is the end of it. -/
theorem getPath_mem {perms : Permissions} {vpath : Bytes} {path : Path} {remaining : Option Bytes}
    (h : perms.getPath vpath (some []) = .ok (path, remaining)) :
    path ∈ perms.paths ∧ remaining.getD [] <:+: vpath := by
  unfold getPath at h
  cases hwalk : walk vpath none perms.byVpath with
  | full found =>
      obtain ⟨rfl, rfl⟩ : found = path ∧ some [] = remaining := by simpa [hwalk] using h
      exact ⟨(perms.mem_byVpath _).mp (walk_mem 0 (.inl hwalk)), List.nil_infix⟩
  | best bestMatch =>
      cases bestMatch with
      | none => simp [hwalk] at h
      | some found =>
          obtain ⟨found, remainingIt⟩ := found
          have hmem := (perms.mem_byVpath _).mp (walk_mem remainingIt (.inr hwalk))
          rw [hwalk] at h
          simp only [assignRemaining] at h
          split at h
          · simp [Except.map] at h
          · obtain ⟨rfl, rfl⟩ : found = path ∧ some (vpath.drop remainingIt) = remaining := by
              simpa [Except.map] using h
            exact ⟨hmem, (List.drop_suffix _ _).isInfix⟩

end Permissions

/-- Below one of the entries: its physical path followed by components, and its virtual path
followed by the same components. None of them leads anywhere else. -/
def Confined (perms : Permissions) (path : Path) : Prop :=
  ∃ entry ∈ perms.paths, ∃ components : List Bytes,
    path.ppath = entry.ppath ++ components
      ∧ path.vpath = Path.toVpath (Path.split entry.vpath ++ components)
      ∧ ∀ component ∈ components, component ≠ [] ∧ component ≠ [dot, dot] ∧ slash ∉ component
        ∧ backslash ∉ component

/-- The working directory after a run of `SetCwd` calls, each with what it finds on the disk. -/
def Session.changeDirs (self : Session) : List (Bytes × Disk) → Session
  | [] => self
  | (path, disk) :: calls =>
      match (self.setCwd path).run disk with
      | .ok changed _ => changed.changeDirs calls
      | .error _ _ => self.changeDirs calls

section Confined

variable {session : Session} (hperms : ∀ path ∈ session.permissions.paths, IsNormalised path.vpath)
  (hcwd : Clean session.cwd)

include hperms hcwd

theorem getPath_confined_of_clean {vpath : Bytes} {type : PathType} {path : Path}
    (h : session.getPath vpath type = .ok path) :
    Confined session.permissions path ∧ Clean path.vpath := by
  unfold Session.getPath at h
  cases hnormal : Path.normalize vpath session.cwd with
  | error e => simp [hnormal, bind, Except.bind] at h
  | ok normal =>
      obtain ⟨parts, hparts, rfl⟩ := Path.normalize_eq_ok hnormal
      have hclean : Clean (Path.toVpath parts) := Path.clean_toVpath fun part hpart =>
        (Path.normalizeAndSplit_names hcwd hparts part hpart).2
      cases hlookup : session.permissions.getPath (Path.toVpath parts) (some []) with
      | error e => simp [hnormal, hlookup, bind, Except.bind] at h
      | ok found =>
          obtain ⟨entry, remaining⟩ := found
          obtain ⟨hmem, hinfix⟩ := Permissions.getPath_mem hlookup
          have hnames : ∀ part ∈ Path.split (remaining.getD []), IsName part := fun part hpart =>
            Path.isName_of_mem_split (hclean.of_isInfix hinfix) hpart
          obtain ⟨hppath, hvpath⟩ :=
            Path.createSubpath_eq (hperms entry hmem) (remaining.getD []) type
          obtain rfl : entry.createSubpath (remaining.getD []) type = path := by
            simpa [hnormal, hlookup, bind, Except.bind, pure, Except.pure] using h
          refine ⟨⟨entry, hmem, Path.split (remaining.getD []), hppath, hvpath, ?_⟩, ?_⟩
          · intro component hcomponent
            obtain ⟨⟨hne, hslash⟩, hback, hdots⟩ := hnames component hcomponent
            exact ⟨hne, fun h => hdots (h ▸ List.infix_rfl), hslash, hback⟩
          · rw [hvpath]
            refine Path.clean_toVpath fun part hpart => ?_
            rcases List.mem_append.mp hpart with hpart | hpart
            · exact (Path.isName_of_mem_split (hperms entry hmem).clean hpart).2
            · exact (hnames part hpart).2

end Confined

theorem setCwd_eq_ok {session changed : Session} {path : Bytes} {disk disk' : Disk}
    (h : (session.setCwd path).run disk = .ok changed disk') :
    ∃ dir, session.getPath path .directory = .ok dir
      ∧ changed = { session with cwd := dir.vpath } := by
  obtain ⟨dir, _, hdir, h⟩ := Effect.bind_eq_ok.mp h
  obtain ⟨_, _, -, h⟩ := Effect.bind_eq_ok.mp h
  obtain ⟨_, _, -, h⟩ := Effect.bind_eq_ok.mp h
  obtain ⟨_, _, -, h⟩ := Effect.bind_eq_ok.mp h
  exact ⟨dir, (Effect.lift_eq_ok.mp hdir).1, (Effect.pure_eq_ok.mp h).1.symm⟩

/-- The invariant of the runs of `SetCwd`: the permissions stay, and the working directory holds
neither a backslash nor `..`. -/
theorem changeDirs_clean (calls : List (Bytes × Disk)) {session : Session}
    (hperms : ∀ path ∈ session.permissions.paths, IsNormalised path.vpath)
    (hcwd : Clean session.cwd) :
    (session.changeDirs calls).permissions = session.permissions
      ∧ Clean (session.changeDirs calls).cwd := by
  induction calls generalizing session with
  | nil => exact ⟨rfl, hcwd⟩
  | cons call calls ih =>
      obtain ⟨path, disk⟩ := call
      unfold Session.changeDirs
      cases hrun : (session.setCwd path).run disk with
      | ok changed disk' =>
          obtain ⟨dir, hdir, rfl⟩ := setCwd_eq_ok hrun
          exact ih hperms (getPath_confined_of_clean hperms hcwd hdir).2
      | error e disk' => exact ih hperms hcwd

/-- **Confinement.** After any run of `SetCwd` calls, `GetPath` throws or gives a path below one of
the configured directories. -/
theorem getPath_confined (perms : Permissions)
    (hperms : ∀ path ∈ perms.paths, IsNormalised path.vpath) (calls : List (Bytes × Disk))
    (vpath : Bytes) (type : PathType) (path : Path)
    (h : (Session.changeDirs { permissions := perms } calls).getPath vpath type = .ok path) :
    Confined perms path := by
  have hroot : Clean [slash] := clean_cons_slash clean_nil
  obtain ⟨hsame, hclean⟩ :
      (Session.changeDirs { permissions := perms } calls).permissions = perms ∧ _ :=
    changeDirs_clean calls hperms hroot
  have hconfined := (getPath_confined_of_clean (by rwa [hsame]) hclean h).1
  rwa [hsame] at hconfined

/-- A disk with one directory. -/
def pubDisk : Disk :=
  { files :=
      { node := fun path => if path = [bytes "pub"] then some .directory else none
        refuses := fun _ _ => false }
    performed := [] }

/-- After a change into `/pub` and a failed one above the root. -/
theorem getPath_confined_docs :
    Confined siblingMounts (.make (bytes "/pub/docs/a.txt") [bytes "pub", bytes "docs", bytes "a.txt"]
      (Path.toPermBits [.canEnter, .canRead, .isRecursive]) .file) :=
  getPath_confined siblingMounts (by decide) [(bytes "pub", pubDisk), (bytes "../..", pubDisk)]
    (bytes "./docs/x/../a.txt") .file _ (by decide)

end Wfde
