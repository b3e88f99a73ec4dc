import Wfde.Proof.EffectivePermissions
import Wfde.Proof.Lookup

/-!
# Merging

`Merge` adds the paths of the lower level of which the upper one has neither the virtual nor the
physical path. All of its own paths stay as they are.
-/

namespace Wfde

namespace Permissions

variable {self : Permissions} {path other : Path}

theorem hasVpath_iff : self.hasVpath path.vpath = true ↔ ∃ own ∈ self.paths, own.vpath = path.vpath := by
  simp [hasVpath]

theorem hasPpath_iff : self.hasPpath path.ppath = true ↔ ∃ own ∈ self.paths, own.ppath = path.ppath := by
  simp [hasPpath]

theorem knows_iff : self.knows path = true
    ↔ ∃ own ∈ self.paths, own.vpath = path.vpath ∨ own.ppath = path.ppath := by
  rw [knows, Bool.or_eq_true, hasVpath_iff, hasPpath_iff]
  constructor
  · rintro (⟨own, hown, hvpath⟩ | ⟨own, hown, hppath⟩)
    · exact ⟨own, hown, .inl hvpath⟩
    · exact ⟨own, hown, .inr hppath⟩
  · rintro ⟨own, hown, hvpath | hppath⟩
    · exact .inl ⟨own, hown, hvpath⟩
    · exact .inr ⟨own, hown, hppath⟩

theorem knows_mergePath (hvpath : other.vpath ≠ path.vpath) (hppath : other.ppath ≠ path.ppath) :
    (self.mergePath path).knows other = self.knows other := by
  rw [Bool.eq_iff_iff, knows_iff, knows_iff, paths_mergePath]
  cases self.knows path with
  | true => rfl
  | false =>
      rw [if_neg Bool.false_ne_true]
      constructor
      · rintro ⟨own, hown, hsame⟩
        rcases List.mem_append.mp hown with hown | hown
        · exact ⟨own, hown, hsame⟩
        · obtain rfl := List.mem_singleton.mp hown
          rcases hsame with hsame | hsame
          · exact absurd hsame.symm hvpath
          · exact absurd hsame.symm hppath
      · rintro ⟨own, hown, hsame⟩
        exact ⟨own, List.mem_append_left _ hown, hsame⟩

theorem paths_foldl_mergePath {paths : List Path} (hvpaths : (paths.map Path.vpath).Nodup)
    (hppaths : (paths.map Path.ppath).Nodup) :
    (paths.foldl mergePath self).paths = self.paths ++ paths.filter fun path => !self.knows path := by
  induction paths generalizing self with
  | nil => exact (List.append_nil _).symm
  | cons path paths ih =>
      rw [List.map_cons, List.nodup_cons] at hvpaths hppaths
      have hsame : ∀ other ∈ paths, (self.mergePath path).knows other = self.knows other := by
        intro other hother
        apply knows_mergePath
        · intro h
          exact hvpaths.1 (List.mem_map.mpr ⟨other, hother, h⟩)
        · intro h
          exact hppaths.1 (List.mem_map.mpr ⟨other, hother, h⟩)
      rw [List.foldl_cons, ih hvpaths.2 hppaths.2, paths_mergePath,
        List.filter_congr fun other hother => by rw [hsame other hother]]
      cases hknows : self.knows path with
      | true => rw [if_pos rfl, List.filter_cons_of_neg (by simp [hknows])]
      | false =>
          rw [if_neg Bool.false_ne_true, List.filter_cons_of_pos (by simp [hknows]),
            List.append_assoc, List.singleton_append]

theorem paths_merge (self perms : Permissions) :
    (self.merge perms).paths = self.paths ++ perms.paths.filter fun path => !self.knows path := by
  rw [merge_eq, paths_foldl_mergePath perms.uniqueVpath perms.uniquePpath]

end Permissions

open Permissions

/-- **Merging.** The merged set holds the paths of the upper level and those of the lower one of
which the upper one has neither the virtual nor the physical path. `GetPath` returns each of them,
as it is, for its own virtual path. -/
theorem merge_getPath (self perms : Permissions) :
    (∀ path ∈ perms.paths, self.hasVpath path.vpath = false → self.hasPpath path.ppath = false →
        ∀ remaining, (self.merge perms).getPath path.vpath remaining = .ok (path, remaining))
      ∧ (∀ path ∈ self.paths, ∀ remaining,
        (self.merge perms).getPath path.vpath remaining = .ok (path, remaining))
      ∧ (self.merge perms).paths
        = self.paths ++ perms.paths.filter fun path => !self.knows path := by
  refine ⟨?_, ?_, paths_merge self perms⟩
  · intro path hpath hvpath hppath remaining
    apply getPath_exact _ _ rfl
    rw [paths_merge]
    apply List.mem_append_right
    apply List.mem_filter.mpr
    refine ⟨hpath, ?_⟩
    rw [knows, hvpath, hppath]
    rfl
  · intro path hpath remaining
    apply getPath_exact _ _ rfl
    rw [paths_merge]
    exact List.mem_append_left _ hpath

/-- A level that has the directory `data` under another name, and may write everywhere. -/
def ownMounts : Permissions :=
  ⟨[.make (bytes "/") [bytes "srv"] (Path.toPermBits [.canRead, .canWrite, .isRecursive]),
      .make (bytes "/own") [bytes "data"] (Path.toPermBits [.canRead])],
    by decide, by decide⟩

def closedMounts : Permissions :=
  ⟨[.make (bytes "/data") [bytes "data"] (Path.toPermBits []),
      .make (bytes "/log") [bytes "log"] (Path.toPermBits [.canList])],
    by decide, by decide⟩

/-- The upper level has nothing of `/log`. -/
theorem merge_getPath_log :
    (ownMounts.merge closedMounts).getPath (bytes "/log") (some [])
      = .ok (.make (bytes "/log") [bytes "log"] (Path.toPermBits [.canList]), some []) :=
  (merge_getPath ownMounts closedMounts).1 (.make (bytes "/log") [bytes "log"] _) (by decide)
    (by decide) (by decide) (some [])

/-- The lower level closes `/data`, of which the upper level has only the physical path. The entry
is left out, and the recursive one of the root lets the client write. -/
theorem not_merge_getPath_data :
    closedMounts.hasVpath (bytes "/data") = true ∧ ownMounts.hasVpath (bytes "/data") = false
      ∧ closedMounts.getPath (bytes "/data") none
        = .ok (.make (bytes "/data") [bytes "data"] (Path.toPermBits []), none)
      ∧ (ownMounts.merge closedMounts).getPath (bytes "/data") none
        = .ok (.make (bytes "/") [bytes "srv"]
          (Path.toPermBits [.canRead, .canWrite, .isRecursive]), none) :=
  ⟨by decide, by decide, by decide, by decide⟩

end Wfde
