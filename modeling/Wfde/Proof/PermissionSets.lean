import Wfde.Lib.Run
import Wfde.Proof.Merge

/-!
# Permission sets in use

The sets that come up when `AddPath`, `Merge` and `Copy` are called in any order, on any of the sets
that there are by then. The container never drops a path that it is given, because each of the three
looks before it inserts.
-/

namespace Wfde

namespace Permissions

variable {self perms : Permissions} {path : Path}

/-- Neither the virtual nor the physical path is the one of an entry. -/
def IsNew (self : Permissions) (path : Path) : Prop :=
  ∀ entry ∈ self.paths, entry.vpath ≠ path.vpath ∧ entry.ppath ≠ path.ppath

instance (self : Permissions) (path : Path) : Decidable (self.IsNew path) :=
  inferInstanceAs (Decidable (∀ entry ∈ self.paths, _))

theorem isNew_iff : self.IsNew path ↔ self.knows path = false := by
  rw [Bool.eq_false_iff, Ne, knows_iff, IsNew]
  simp only [not_exists, not_and, not_or]

theorem paths_merge_isNew (self perms : Permissions) :
    (self.merge perms).paths = self.paths ++ perms.paths.filter self.IsNew := by
  have hsame : (fun path => !self.knows path) = fun path => decide (self.IsNew path) := by
    funext path
    rw [Bool.eq_iff_iff, decide_eq_true_iff, isNew_iff, Bool.not_eq_true']
  rw [paths_merge, hsame]

theorem paths_pushBack (hnew : self.knows path = false) :
    (self.pushBack path).paths = self.paths ++ [path] := by
  have hmerge := paths_mergePath self path
  rwa [mergePath, hnew, if_neg Bool.false_ne_true, if_neg Bool.false_ne_true] at hmerge

theorem addPath_cases (self : Permissions) (path : Path) :
    self.addPath path = .error .alreadyExist ∧ self.knows path = true
      ∨ ∃ added, self.addPath path = .ok added ∧ self.knows path = false
        ∧ added.paths = self.paths ++ [path] := by
  cases hknows : self.knows path with
  | true =>
      refine .inl ⟨?_, rfl⟩
      rw [knows, Bool.or_eq_true] at hknows
      rw [addPath]
      split
      · rfl
      · exact if_pos (hknows.resolve_left ‹_›)
  | false =>
      refine .inr ⟨self.pushBack path, ?_, rfl, paths_pushBack hknows⟩
      rw [knows, Bool.or_eq_false_iff] at hknows
      rw [addPath, hknows.1, hknows.2, if_neg Bool.false_ne_true, if_neg Bool.false_ne_true]

theorem ext_paths (h : self.paths = perms.paths) : self = perms := by
  cases self
  cases perms
  cases h
  rfl

theorem copy_eq (self : Permissions) : self.copy = self := by
  have hmerge : self.copy = empty.merge self := by
    rw [merge_eq, copy]
    congr 1
    funext copied path
    unfold mergePath knows pushBack
    by_cases hknown : copied.hasVpath path.vpath = true ∨ copied.hasPpath path.ppath = true
    · rw [dif_pos hknown, if_pos (by rwa [Bool.or_eq_true])]
    · rw [dif_neg hknown, if_neg (by rwa [Bool.or_eq_true])]
  apply ext_paths
  rw [hmerge, paths_merge]
  exact List.filter_eq_self.mpr fun path _ => rfl

theorem merge_merge (self perms : Permissions) : (self.merge perms).merge perms = self.merge perms := by
  rw [merge_eq_self_iff]
  intro path hpath
  have hmem (own : Path) (hown : own ∈ self.paths) : own ∈ (self.merge perms).paths := by
    rw [paths_merge]
    exact List.mem_append_left _ hown
  cases hknows : self.knows path with
  | true =>
      obtain ⟨own, hown, hsame⟩ := knows_iff.mp hknows
      exact knows_iff.mpr ⟨own, hmem own hown, hsame⟩
  | false =>
      refine knows_iff.mpr ⟨path, ?_, .inl rfl⟩
      rw [paths_merge]
      exact List.mem_append_right _ (List.mem_filter.mpr ⟨hpath, by rw [hknows]; rfl⟩)

end Permissions

open Permissions

/-- A call on one of the sets that there are, by its number. -/
inductive PermissionsCall where
  | create
  | addPath (set : Nat) (path : Path)
  | merge (set perms : Nat)
  | copy (set : Nat)

namespace PermissionsCall

/-- The sets behind a call. One that throws leaves them as they were. -/
def apply (sets : List Permissions) : PermissionsCall → List Permissions
  | create => sets ++ [.empty]
  | addPath set path =>
      match sets[set]? with
      | none => sets
      | some self =>
          match self.addPath path with
          | .ok added => sets.set set added
          | .error _ => sets
  | merge set perms =>
      match sets[set]?, sets[perms]? with
      | some self, some perms => sets.set set (self.merge perms)
      | _, _ => sets
  | copy set =>
      match sets[set]? with
      | some self => sets ++ [self.copy]
      | none => sets

/-- What a call promises, wherever it is made. -/
def Keeps (sets : List Permissions) : PermissionsCall → Prop
  | create => apply sets create = sets ++ [.empty]
  | addPath set path => ∀ self, sets[set]? = some self →
      (¬ self.IsNew path →
        self.addPath path = .error .alreadyExist ∧ apply sets (addPath set path) = sets)
      ∧ (self.IsNew path → ∃ added : Permissions, self.addPath path = .ok added
          ∧ added.paths = self.paths ++ [path] ∧ apply sets (addPath set path) = sets.set set added)
  | merge set perms => ∀ self other, sets[set]? = some self → sets[perms]? = some other →
      ∃ merged : Permissions,
        merged.paths = self.paths ++ other.paths.filter (fun path => self.IsNew path)
          ∧ apply sets (merge set perms) = sets.set set merged
          ∧ (apply sets (merge set perms))[perms]? = some (if perms = set then self else other)
          ∧ merged.merge other = merged
  | copy set => ∀ self, sets[set]? = some self →
      ∃ copied : Permissions, copied.paths = self.paths ∧ apply sets (copy set) = sets ++ [copied]

theorem keeps (sets : List Permissions) (call : PermissionsCall) : Keeps sets call := by
  cases call with
  | create => rfl
  | addPath set path =>
      intro self hself
      rcases addPath_cases self path with ⟨hthrows, hknows⟩ | ⟨added, hadded, hknows, hpaths⟩
      · refine ⟨fun _ => ⟨hthrows, by simp [apply, hself, hthrows]⟩, fun hnew => ?_⟩
        rw [isNew_iff, hknows] at hnew
        cases hnew
      · refine ⟨fun hnew => absurd (isNew_iff.mpr hknows) hnew, fun _ => ?_⟩
        exact ⟨added, hadded, hpaths, by simp [apply, hself, hadded]⟩
  | merge set perms =>
      intro self other hself hother
      have happly : apply sets (merge set perms) = sets.set set (self.merge other) := by
        simp only [apply, hself, hother]
      refine ⟨self.merge other, paths_merge_isNew self other, happly, ?_, merge_merge self other⟩
      rw [happly]
      by_cases hsame : perms = set
      · subst hsame
        obtain rfl : self = other := Option.some.inj (hself.symm.trans hother)
        have hlength := (List.getElem?_eq_some_iff.mp hself).1
        have hknown : self.merge self = self :=
          merge_eq_self_iff.mpr fun path hpath => knows_iff.mpr ⟨path, hpath, .inl rfl⟩
        rw [if_pos rfl, hknown, List.getElem?_set_self hlength]
      · rw [if_neg hsame, List.getElem?_set_ne (Ne.symm hsame), hother]
  | copy set =>
      intro self hself
      refine ⟨self.copy, congrArg Permissions.paths self.copy_eq, ?_⟩
      simp only [apply, hself]

end PermissionsCall

/-- **Permission sets.** In every run of calls, from no set at all, the virtual and the physical
paths of each set are distinct, a path that is refused changes nothing, and merging is a stable
union. -/
theorem permissionSets_unambiguous (calls : List PermissionsCall) :
    (∀ self ∈ Machine.run PermissionsCall.apply [] calls,
        (self.paths.map Path.vpath).Nodup ∧ (self.paths.map Path.ppath).Nodup)
      ∧ Machine.Along PermissionsCall.apply PermissionsCall.Keeps [] calls :=
  ⟨fun self _ => ⟨self.uniqueVpath, self.uniquePpath⟩,
    Machine.along_of_forall _ PermissionsCall.keeps [] calls⟩

end Wfde
