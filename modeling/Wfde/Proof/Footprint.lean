import Mathlib.Data.Set.Basic
import Wfde.Lib.Relational
import Wfde.Proof.Authorisation
import Wfde.Proof.Confinement

/-!
# What a session sees and changes

A session reaches the file system through the entries of its permissions: it sees what is at or below
their physical paths, and changes it only below entries with a bit that allows some change. Run on two
disks that agree where it sees them, its operations do the same to both.
-/

namespace Wfde

open Effect

/-- The part of the file system that may be seen, and the part of it that may be changed. -/
structure Reach where
  reads : Set PPath
  writes : Set PPath
  reads_below : ∀ {path other : PPath}, path ∈ reads → path <+: other → other ∈ reads
  writes_below : ∀ {path other : PPath}, path ∈ writes → path <+: other → other ∈ writes
  writes_subset : writes ⊆ reads

/-- Whether any change may be made at a path. -/
def Path.changes (path : Path) : Bool :=
  path.canWrite || path.canCreateFile || path.canCreateDir || path.canDeleteFile
    || path.canDeleteDir || path.canRename

/-- What the entries of some permissions lead to. -/
def Reach.below (entries : Set Path) : Reach where
  reads := {path | ∃ entry ∈ entries, entry.ppath <+: path}
  writes := {path | ∃ entry ∈ entries, entry.changes = true ∧ entry.ppath <+: path}
  reads_below := fun ⟨entry, hentry, hpath⟩ hbelow => ⟨entry, hentry, hpath.trans hbelow⟩
  writes_below := fun ⟨entry, hentry, hbit, hpath⟩ hbelow =>
    ⟨entry, hentry, hbit, hpath.trans hbelow⟩
  writes_subset := fun _ ⟨entry, hentry, _, hpath⟩ => ⟨entry, hentry, hpath⟩

namespace Reach

/-- No entry leads out of what may be seen, and none with a bit for a change out of what may be
changed. -/
def Covers (reach : Reach) (perms : Permissions) : Prop :=
  ∀ entry ∈ perms.paths,
    entry.ppath ∈ reach.reads ∧ (entry.changes = true → entry.ppath ∈ reach.writes)

theorem covers_below {entries : Set Path} {perms : Permissions}
    (h : ∀ entry ∈ perms.paths, entry ∈ entries) : (Reach.below entries).Covers perms :=
  fun entry hentry => ⟨⟨entry, h entry hentry, List.prefix_rfl⟩,
    fun hbit => ⟨entry, h entry hentry, hbit, List.prefix_rfl⟩⟩

end Reach

namespace Path

theorem foldl_descend_ppath (parts : List Bytes) (ppath : PPath) (vpath : Bytes) :
    (parts.foldl descend (ppath, vpath)).1 = ppath ++ parts := by
  induction parts generalizing ppath vpath with
  | nil => rw [List.foldl_nil, List.append_nil]
  | cons part parts ih => rw [List.foldl_cons, descend, ih, List.append_assoc, List.singleton_append]

theorem createSubpath_ppath (path : Path) (subPath : Bytes) (type : PathType) :
    (path.createSubpath subPath type).ppath = path.ppath ++ split subPath :=
  foldl_descend_ppath _ _ _

theorem changes_congr {path other : Path} (h : path.permbits = other.permbits) :
    path.changes = other.changes := by
  simp only [changes, canWrite, canCreateFile, canCreateDir, canDeleteFile, canDeleteDir, canRename,
    has, h]

end Path

/-- A path that is resolved lies below an entry and has its bits. -/
theorem Session.getPath_entry {self : Session} {vpath : Bytes} {type : PathType} {path : Path}
    (h : self.getPath vpath type = .ok path) :
    ∃ entry ∈ self.permissions.paths, entry.ppath <+: path.ppath ∧ path.permbits = entry.permbits := by
  unfold Session.getPath at h
  cases hnormal : Path.normalize vpath self.cwd with
  | error e => simp [hnormal, bind, Except.bind] at h
  | ok normal =>
      cases hlookup : self.permissions.getPath normal (some []) with
      | error e => simp [hnormal, hlookup, bind, Except.bind] at h
      | ok found =>
          obtain ⟨entry, remaining⟩ := found
          obtain rfl : entry.createSubpath (remaining.getD []) type = path := by
            simpa [hnormal, hlookup, bind, Except.bind, pure, Except.pure] using h
          refine ⟨entry, (Permissions.getPath_mem hlookup).1, ?_, rfl⟩
          rw [Path.createSubpath_ppath]
          exact List.prefix_append _ _

namespace Reach

variable {reach : Reach} {self : Session} (h : reach.Covers self.permissions)
include h

theorem Covers.reads {vpath : Bytes} {type : PathType} {path : Path}
    (hpath : self.getPath vpath type = .ok path) : path.ppath ∈ reach.reads := by
  obtain ⟨entry, hentry, hbelow, -⟩ := Session.getPath_entry hpath
  exact reach.reads_below (h entry hentry).1 hbelow

theorem Covers.writes {vpath : Bytes} {type : PathType} {path : Path}
    (hpath : self.getPath vpath type = .ok path) (hbit : path.changes = true) :
    path.ppath ∈ reach.writes := by
  obtain ⟨entry, hentry, hbelow, hbits⟩ := Session.getPath_entry hpath
  rw [Path.changes_congr hbits] at hbit
  exact reach.writes_below ((h entry hentry).2 hbit) hbelow

end Reach

/-- Two disks that agree where they may be seen. The first is as `outer` where it may not be
changed. -/
structure Twins (reach : Reach) (outer : FileSystem) (disk disk' : Disk) : Prop where
  inside : ∀ path ∈ reach.reads, disk.files.node path = disk'.files.node path
  refuses : ∀ access, ∀ path ∈ reach.reads,
    disk.files.refuses access path = disk'.files.refuses access path
  outside : ∀ path ∉ reach.writes, disk.files.node path = outer.node path
  kept : disk.files.refuses = outer.refuses

/-- The calls that change nothing but what may be changed. -/
def Primitive.Within (reach : Reach) : Primitive → Prop
  | .resizeFile path _ | .touch path | .remove path | .createDirectory path => path ∈ reach.writes
  | .rename source target => source ∈ reach.writes ∧ target ∈ reach.writes

section Primitives

variable {reach : Reach} {outer : FileSystem} {disk disk' : Disk} {path : PPath}

theorem Twins.set (h : Twins reach outer disk disk') (hpath : path ∈ reach.writes)
    (node : Option Node) (performed performed' : List Primitive) :
    Twins reach outer ⟨disk.files.set path node, performed⟩
      ⟨disk'.files.set path node, performed'⟩ where
  inside other hother := by
    by_cases hsame : other = path
    · rw [hsame, FileSystem.set_node_self, FileSystem.set_node_self]
    · rw [FileSystem.set_node_of_ne _ _ hsame, FileSystem.set_node_of_ne _ _ hsame]
      exact h.inside other hother
  refuses := h.refuses
  outside other hother := by
    have hne : other ≠ path := fun heq => hother (heq ▸ hpath)
    exact (FileSystem.set_node_of_ne _ _ hne).trans (h.outside other hother)
  kept := h.kept

theorem Twins.performed (h : Twins reach outer disk disk') (performed performed' : List Primitive) :
    Twins reach outer ⟨disk.files, performed⟩ ⟨disk'.files, performed'⟩ :=
  ⟨h.inside, h.refuses, h.outside, h.kept⟩

/-- What a move takes along lies below its source, and what it replaces below its target. -/
theorem Twins.move (h : Twins reach outer disk disk') {source target : PPath}
    (hsource : source ∈ reach.writes) (htarget : target ∈ reach.writes)
    (performed performed' : List Primitive) :
    let moved (files : FileSystem) : FileSystem :=
      { files with
        node := fun path =>
          if target <+: path then files.node (source ++ path.drop target.length)
          else if source <+: path then none
          else files.node path }
    Twins reach outer ⟨moved disk.files, performed⟩ ⟨moved disk'.files, performed'⟩ where
  inside path hpath := by
    dsimp only
    split
    · exact h.inside _ (reach.reads_below (reach.writes_subset hsource) (List.prefix_append _ _))
    · split
      · rfl
      · exact h.inside path hpath
  refuses := h.refuses
  outside path hpath := by
    dsimp only
    rw [if_neg fun hbelow => hpath (reach.writes_below htarget hbelow),
      if_neg fun hbelow => hpath (reach.writes_below hsource hbelow)]
    exact h.outside path hpath
  kept := h.kept

theorem parallel_status (hpath : path ∈ reach.reads) :
    Parallel (Twins reach outer) (fun _ => True) (Disk.status path) := by
  intro disk disk' h
  unfold ParallelAt Disk.status EStateM.run
  dsimp only
  rw [← h.refuses .status path hpath, ← h.inside path hpath]
  cases disk.files.refuses .status path with
  | true => exact ⟨rfl, h⟩
  | false => exact ⟨rfl, trivial, h⟩

theorem parallel_fileSize (hpath : path ∈ reach.reads) :
    Parallel (Twins reach outer) (fun _ => True) (Disk.fileSize path) := by
  intro disk disk' h
  unfold ParallelAt Disk.fileSize EStateM.run
  dsimp only
  rw [← h.refuses .status path hpath, ← h.inside path hpath]
  cases disk.files.refuses .status path with
  | true => exact ⟨rfl, h⟩
  | false =>
      cases disk.files.node path with
      | none => exact ⟨rfl, h⟩
      | some node =>
          cases node with
          | file content => exact ⟨rfl, trivial, h⟩
          | directory => exact ⟨rfl, h⟩

/-- A call to change the file system succeeds on both disks or fails on both. -/
theorem parallel_perform {primitive : Primitive} (hwithin : primitive.Within reach) :
    Parallel (Twins reach outer) (fun _ => True) (Disk.perform primitive) := by
  intro disk disk' h
  have hsame {path : PPath} (hpath : path ∈ reach.writes) :
      disk'.files.node path = disk.files.node path := (h.inside path (reach.writes_subset hpath)).symm
  have hrefuses {path : PPath} (hpath : path ∈ reach.writes) :
      disk'.files.refuses .write path = disk.files.refuses .write path :=
    (h.refuses .write path (reach.writes_subset hpath)).symm
  unfold ParallelAt Disk.perform EStateM.run
  cases primitive with
  | resizeFile path size =>
      simp only [FileSystem.perform, hsame hwithin, hrefuses hwithin]
      rcases disk.files.node path with _ | ⟨content⟩ | _
      · exact ⟨rfl, trivial, h.performed _ _⟩
      · cases disk.files.refuses .write path with
        | true => exact ⟨rfl, trivial, h.performed _ _⟩
        | false => exact ⟨rfl, trivial, h.set hwithin _ _ _⟩
      · exact ⟨rfl, trivial, h.performed _ _⟩
  | touch path =>
      simp only [FileSystem.perform, hsame hwithin, hrefuses hwithin]
      cases disk.files.refuses .write path with
      | true => exact ⟨rfl, trivial, h.performed _ _⟩
      | false =>
          rcases disk.files.node path with _ | ⟨content⟩ | _
          · exact ⟨rfl, trivial, h.set hwithin _ _ _⟩
          · exact ⟨rfl, trivial, h.set hwithin _ _ _⟩
          · exact ⟨rfl, trivial, h.performed _ _⟩
  | remove path =>
      simp only [FileSystem.perform, hsame hwithin, hrefuses hwithin]
      cases disk.files.node path with
      | none => exact ⟨rfl, trivial, h.performed _ _⟩
      | some node =>
          cases disk.files.refuses .write path with
          | true => exact ⟨rfl, trivial, h.performed _ _⟩
          | false => exact ⟨rfl, trivial, h.set hwithin _ _ _⟩
  | createDirectory path =>
      simp only [FileSystem.perform, hsame hwithin, hrefuses hwithin]
      rcases disk.files.node path with _ | ⟨content⟩ | _
      · cases disk.files.refuses .write path with
        | true => exact ⟨rfl, trivial, h.performed _ _⟩
        | false => exact ⟨rfl, trivial, h.set hwithin _ _ _⟩
      · exact ⟨rfl, trivial, h.performed _ _⟩
      · exact ⟨rfl, trivial, h.performed _ _⟩
  | rename source target =>
      have hfails : (disk'.files.node source = none ∨ disk'.files.refuses .write source = true
            ∨ disk'.files.refuses .write target = true ∨ source <+: target)
          ↔ (disk.files.node source = none ∨ disk.files.refuses .write source = true
            ∨ disk.files.refuses .write target = true ∨ source <+: target) := by
        rw [hsame hwithin.1, hrefuses hwithin.1, hrefuses hwithin.2]
      by_cases hfail : disk.files.node source = none ∨ disk.files.refuses .write source = true
          ∨ disk.files.refuses .write target = true ∨ source <+: target
      · simp only [FileSystem.perform, if_pos hfail, if_pos (hfails.mpr hfail)]
        exact ⟨trivial, trivial, h.performed _ _⟩
      · simp only [FileSystem.perform, if_neg hfail, if_neg (fun hfail' => hfail (hfails.mp hfail'))]
        exact ⟨trivial, trivial, h.move hwithin.1 hwithin.2 _ _⟩

theorem parallel_performOrThrow {primitive : Primitive} (hwithin : primitive.Within reach) :
    Parallel (Twins reach outer) (fun _ => True) (Disk.performOrThrow primitive) :=
  parallel_bind (parallel_perform hwithin) fun _ _ => (parallel_require _ _).imp fun _ _ => trivial

theorem parallel_existsOnDisk {path : Path} (hpath : path.ppath ∈ reach.reads) :
    Parallel (Twins reach outer) (fun _ => True) path.existsOnDisk :=
  parallel_bind (parallel_status hpath) fun _ _ => parallel_pure trivial

end Primitives

end Wfde
