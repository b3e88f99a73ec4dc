import Wfde.Entity

/-!
# Effective permissions

The loop over the ancestors asks the same entity for its parent in every pass, and it stops in front
of the root. What it collects is complete when the root has nothing to add, and it comes to an end
when there are at most two levels above the one that it starts from.
-/

namespace Wfde

namespace Permissions

variable {self perms : Permissions}

/-- Whether a path is left out when it is merged. -/
def knows (self : Permissions) (path : Path) : Bool :=
  self.hasVpath path.vpath || self.hasPpath path.ppath

def mergePath (self : Permissions) (path : Path) : Permissions :=
  if self.knows path then self else self.pushBack path

theorem merge_eq (self perms : Permissions) : self.merge perms = perms.paths.foldl mergePath self := by
  unfold merge
  congr 1
  funext merged path
  unfold mergePath knows
  cases merged.hasVpath path.vpath with
  | true => rfl
  | false => cases merged.hasPpath path.ppath <;> rfl

theorem paths_mergePath (self : Permissions) (path : Path) :
    (self.mergePath path).paths = if self.knows path then self.paths else self.paths ++ [path] := by
  unfold mergePath
  cases hknows : self.knows path with
  | true => rfl
  | false =>
      have hnew : ¬ (self.hasVpath path.vpath = true ∨ self.hasPpath path.ppath = true) := by
        rw [← Bool.or_eq_true]
        exact Bool.eq_false_iff.mp hknows
      rw [if_neg Bool.false_ne_true, if_neg Bool.false_ne_true, pushBack, dif_neg hnew]

theorem paths_prefix_foldl (paths : List Path) (self : Permissions) :
    self.paths <+: (paths.foldl mergePath self).paths := by
  induction paths generalizing self with
  | nil => exact List.prefix_rfl
  | cons path paths ih =>
      refine List.IsPrefix.trans ?_ (ih (self.mergePath path))
      rw [paths_mergePath]
      split
      · exact List.prefix_rfl
      · exact List.prefix_append _ _

theorem foldl_mergePath_eq_self {paths : List Path} :
    paths.foldl mergePath self = self ↔ ∀ path ∈ paths, self.knows path = true := by
  induction paths with
  | nil => simp
  | cons path paths ih =>
      rw [List.foldl_cons, List.forall_mem_cons]
      cases hknows : self.knows path with
      | true =>
          rw [mergePath, hknows, if_pos rfl, ih]
          simp
      | false =>
          simp only [Bool.false_eq_true, false_and, iff_false]
          intro hsame
          have hprefix := paths_prefix_foldl paths (self.mergePath path)
          rw [hsame, paths_mergePath, hknows, if_neg Bool.false_ne_true] at hprefix
          have hlength := hprefix.length_le
          rw [List.length_append, List.length_singleton] at hlength
          omega

/-- Merging changes nothing when every path is known already, and only then. -/
theorem merge_eq_self_iff : self.merge perms = self ↔ ∀ path ∈ perms.paths, self.knows path = true := by
  rw [merge_eq, foldl_mergePath_eq_self]

end Permissions

namespace Entity

def ancestors : Entity → List Entity
  | root _ => []
  | child _ parent => parent :: parent.ancestors

/-- The first level from an entity upwards that has a set of its own. -/
def nearest : Entity → Option Entity
  | root none => none
  | root (some permissions) => some (root (some permissions))
  | child none parent => parent.nearest
  | child (some permissions) parent => some (child (some permissions) parent)

/-- A copy of the set of a level, merged with the sets of others in their order. -/
def mergeLevels (level : Entity) (others : List Entity) : Permissions :=
  others.foldl mergeLevel ((level.getPermissions.map Permissions.copy).getD .empty)

/-- The nearest set, merged with those of all further ancestors. -/
def everyLevel (entity : Entity) : Option Permissions :=
  entity.nearest.map fun level => mergeLevels level level.ancestors

/-- Every path of the root is left out when it is merged last, unless the root has the nearest
set. -/
def RootAddsNothing (entity : Entity) : Prop :=
  ∀ level ∈ entity.nearest, ∀ root ∈ level.ancestors.getLast?, ∀ perms ∈ root.getPermissions,
    ∀ path ∈ perms.paths, (mergeLevels level level.ancestors.dropLast).knows path = true

/-- The parents that the passes of the loop look at. -/
def visits (own : Entity) : Nat → Entity → List Entity
  | 0, _ => []
  | passes + 1, parent =>
      if parent.haveParent then
        parent :: (own.getParent.elim [] fun next => visits own passes next)
      else []

def walk (passes : Nat) : Entity → List Entity
  | root _ => []
  | child none parent => parent.walk passes
  | child (some _) parent => visits parent passes parent

/-- The function returns or throws, and its loop looks at no ancestor twice. -/
def WalkEnds (entity : Entity) : Prop :=
  (∃ passes, (entity.getEffectivePermissions passes).isSome = true)
    ∧ ∀ passes, (entity.walk passes).Nodup

variable {entity level parent : Entity} {perms : Permissions}

theorem getEffectivePermissions_eq (passes : Nat) (entity : Entity) :
    entity.getEffectivePermissions passes
      = match entity.nearest with
        | none => some (.error .missingInternalObject)
        | some level => level.getEffectivePermissions passes := by
  induction entity with
  | root permissions => cases permissions <;> rfl
  | child permissions parent ih =>
      cases permissions with
      | none => exact ih
      | some perms => rfl

theorem walk_eq (passes : Nat) (entity : Entity) :
    entity.walk passes = (entity.nearest.map (walk passes)).getD [] := by
  induction entity with
  | root permissions => cases permissions <;> rfl
  | child permissions parent ih =>
      cases permissions with
      | none => exact ih
      | some perms => rfl

theorem getPermissions_of_nearest (h : entity.nearest = some level) :
    ∃ perms, level.getPermissions = some perms := by
  induction entity with
  | root permissions =>
      cases permissions with
      | none => cases h
      | some perms =>
          obtain rfl := Option.some.inj h
          exact ⟨perms, rfl⟩
  | child permissions parent ih =>
      cases permissions with
      | none => exact ih h
      | some perms =>
          obtain rfl := Option.some.inj h
          exact ⟨perms, rfl⟩

section Level

variable {set : Permissions} {between above great : Option Permissions}

theorem nodup_walk_parent (passes : Nat) :
    (walk passes (child (some set) (root above))).Nodup := by
  cases passes with
  | zero => exact List.nodup_nil
  | succ passes => exact List.nodup_nil

theorem nodup_walk_grandparent (passes : Nat) :
    (walk passes (child (some set) (child between (root above)))).Nodup := by
  cases passes with
  | zero => exact List.nodup_nil
  | succ passes =>
      cases passes with
      | zero => exact List.nodup_singleton _
      | succ passes => exact List.nodup_singleton _

theorem getEffectivePermissions_of_le (hset : level.getPermissions = some set)
    (hheight : level.ancestors.length ≤ 2) :
    level.getEffectivePermissions 2 = some (.ok (mergeLevels level level.ancestors.dropLast))
      ∧ ∀ passes, (level.walk passes).Nodup := by
  match level with
  | root permissions =>
      obtain rfl : permissions = some set := hset
      exact ⟨rfl, fun _ => List.nodup_nil⟩
  | child permissions (root above) =>
      obtain rfl : permissions = some set := hset
      exact ⟨rfl, nodup_walk_parent⟩
  | child permissions (child between (root above)) =>
      obtain rfl : permissions = some set := hset
      exact ⟨rfl, nodup_walk_grandparent⟩
  | child permissions (child between (child above great)) =>
      simp [ancestors] at hheight

/-- Every pass takes the same ancestor again, which is not the root. -/
theorem mergeParents_eq_none (passes : Nat) {parent : Entity} (hparent : parent.haveParent = true)
    (rval : Permissions) (grand : Entity) :
    mergeParents (child between (child above grand)) passes parent rval = none := by
  induction passes generalizing parent rval with
  | zero => rfl
  | succ passes ih =>
      rw [mergeParents, if_pos hparent]
      exact ih rfl _

theorem getEffectivePermissions_of_lt (hset : level.getPermissions = some set)
    (hheight : 2 < level.ancestors.length) (passes : Nat) :
    level.getEffectivePermissions passes = none := by
  match level with
  | root permissions => simp [ancestors] at hheight
  | child permissions (root above) => simp [ancestors] at hheight
  | child permissions (child between (root above)) => simp [ancestors] at hheight
  | child permissions (child between (child above great)) =>
      obtain rfl : permissions = some set := hset
      rw [getEffectivePermissions, mergeParents_eq_none passes rfl]
      rfl

theorem mergeParents_mono {own : Entity} {passes more : Nat} {rval result : Permissions}
    (h : mergeParents own passes parent rval = some result) (hle : passes ≤ more) :
    mergeParents own more parent rval = some result := by
  induction passes generalizing parent rval more with
  | zero => cases h
  | succ passes ih =>
      obtain ⟨more, rfl⟩ := Nat.exists_eq_add_of_le' (Nat.one_le_of_lt hle)
      rw [mergeParents] at h ⊢
      split at h
      · rw [if_pos ‹_›]
        cases hnext : own.getParent with
        | none =>
            rw [hnext] at h
            cases h
        | some next =>
            rw [hnext] at h
            exact ih h (Nat.le_of_succ_le_succ hle)
      · rwa [if_neg ‹_›]

theorem getEffectivePermissions_mono {passes more : Nat}
    (h : level.getEffectivePermissions passes = some (.ok perms)) (hle : passes ≤ more) :
    level.getEffectivePermissions more = some (.ok perms) := by
  induction level with
  | root permissions => cases permissions <;> exact h
  | child permissions parent ih =>
      cases permissions with
      | none => exact ih h
      | some set =>
          rw [getEffectivePermissions, Option.map_eq_some_iff] at h ⊢
          obtain ⟨rval, hrval, hperms⟩ := h
          exact ⟨rval, mergeParents_mono hrval hle, hperms⟩

end Level

section EveryLevel

/-- Whatever is returned is the nearest set, merged with those below the root. -/
theorem returned_eq {passes : Nat} (h : entity.getEffectivePermissions passes = some (.ok perms)) :
    ∃ level, entity.nearest = some level ∧ level.ancestors.length ≤ 2
      ∧ perms = mergeLevels level level.ancestors.dropLast := by
  rw [getEffectivePermissions_eq] at h
  cases hnearest : entity.nearest with
  | none =>
      rw [hnearest] at h
      cases h
  | some level =>
      rw [hnearest] at h
      obtain ⟨set, hset⟩ := getPermissions_of_nearest hnearest
      have hheight : level.ancestors.length ≤ 2 := by
        by_contra hlt
        have hnone := getEffectivePermissions_of_lt hset (Nat.lt_of_not_le hlt) passes
        rw [show level.getEffectivePermissions passes = _ from h] at hnone
        cases hnone
      refine ⟨level, rfl, hheight, ?_⟩
      have htwo := (getEffectivePermissions_of_le hset hheight).1
      have hmax := getEffectivePermissions_mono h (Nat.le_max_left passes 2)
      rw [getEffectivePermissions_mono htwo (Nat.le_max_right passes 2)] at hmax
      exact (Except.ok.inj (Option.some.inj hmax)).symm

theorem mergeLevels_concat (level : Entity) (others : List Entity) (root : Entity) :
    mergeLevels level (others ++ [root]) = mergeLevel (mergeLevels level others) root := by
  rw [mergeLevels, List.foldl_append]
  rfl

theorem mergeLevel_eq_self_iff {rval : Permissions} {root : Entity} :
    mergeLevel rval root = rval
      ↔ ∀ perms ∈ root.getPermissions, ∀ path ∈ perms.paths, rval.knows path = true := by
  unfold mergeLevel
  cases root.getPermissions with
  | none => simp
  | some perms => simp [Permissions.merge_eq_self_iff]

theorem mergeLevels_dropLast_iff (level : Entity) :
    mergeLevels level level.ancestors.dropLast = mergeLevels level level.ancestors
      ↔ ∀ root ∈ level.ancestors.getLast?, ∀ perms ∈ root.getPermissions, ∀ path ∈ perms.paths,
        (mergeLevels level level.ancestors.dropLast).knows path = true := by
  rcases level.ancestors.eq_nil_or_concat with hnil | ⟨others, root, hothers⟩
  · simp [hnil]
  · rw [hothers, List.concat_eq_append, List.dropLast_concat, List.getLast?_concat,
      mergeLevels_concat, eq_comm, mergeLevel_eq_self_iff]
    simp

end EveryLevel

end Entity

/-- **Effective permissions.** What `GetEffectivePermissions` returns is the nearest set merged with
the sets of all ancestors of its level if and only if the root has nothing to add to the levels below
it. -/
theorem getEffectivePermissions_everyLevel_iff {entity : Entity} {passes : Nat}
    {perms : Permissions} (h : entity.getEffectivePermissions passes = some (.ok perms)) :
    some perms = entity.everyLevel ↔ entity.RootAddsNothing := by
  obtain ⟨level, hnearest, -, rfl⟩ := Entity.returned_eq h
  unfold Entity.everyLevel Entity.RootAddsNothing
  rw [hnearest, Option.map_some, Option.some.injEq, Entity.mergeLevels_dropLast_iff]
  simp

def onePath (vpath ppath : Bytes) : Permissions := Permissions.empty.pushBack (.make vpath [ppath] 0)

/-- A protocol whose host has a set as well. -/
theorem getEffectivePermissions_everyLevel_iff_host :
    let protocol := Entity.child (some (onePath (bytes "/") (bytes "ftp")))
      (.child (some (onePath (bytes "/pub") (bytes "pub"))) (.root none))
    ∃ perms, protocol.getEffectivePermissions 2 = some (.ok perms)
      ∧ (some perms = protocol.everyLevel ↔ protocol.RootAddsNothing)
      ∧ perms.hasVpath (bytes "/pub") = true := by
  intro protocol
  refine ⟨_, rfl, ?_, by decide⟩
  exact getEffectivePermissions_everyLevel_iff (show protocol.getEffectivePermissions 2 = _ from rfl)

/-- A path that only the server has is not in force for the protocol. -/
theorem not_everyLevel_server :
    let protocol := Entity.child (some (onePath (bytes "/") (bytes "ftp")))
      (.child none (.root (some (onePath (bytes "/pub") (bytes "pub")))))
    ∃ perms, protocol.getEffectivePermissions 2 = some (.ok perms)
      ∧ perms.hasVpath (bytes "/pub") = false ∧ some perms ≠ protocol.everyLevel := by
  refine ⟨_, rfl, by decide, fun hevery => ?_⟩
  have hpub := congrArg (Option.map fun perms => perms.hasVpath (bytes "/pub")) hevery
  exact absurd hpub (by decide)

/-- **The walk over the ancestors.** It ends if and only if the nearest level with a set has at most
two levels above it, or there is no such level. -/
theorem walkEnds_iff (entity : Entity) :
    entity.WalkEnds ↔ ∀ level ∈ entity.nearest, level.ancestors.length ≤ 2 := by
  unfold Entity.WalkEnds
  simp only [Entity.getEffectivePermissions_eq _ entity, Entity.walk_eq _ entity]
  cases hnearest : entity.nearest with
  | none => simp
  | some level =>
      obtain ⟨set, hset⟩ := Entity.getPermissions_of_nearest hnearest
      simp only [Option.map_some, Option.getD_some, Option.mem_def, Option.some.injEq, forall_eq']
      constructor
      · rintro ⟨⟨passes, hsome⟩, -⟩
        by_contra hlt
        rw [Entity.getEffectivePermissions_of_lt hset (Nat.lt_of_not_le hlt)] at hsome
        cases hsome
      · intro hheight
        obtain ⟨hreturned, hnodup⟩ := Entity.getEffectivePermissions_of_le hset hheight
        exact ⟨⟨2, by rw [hreturned]; rfl⟩, hnodup⟩

/-- Asked for an interface with a set of its own, the function does not return. -/
theorem not_walkEnds_interface :
    ¬ (Entity.child (some .empty) (.child none (.child none (.root none)))).WalkEnds := by
  rintro ⟨⟨passes, hsome⟩, -⟩
  rw [Entity.getEffectivePermissions_of_lt rfl (by decide)] at hsome
  cases hsome

end Wfde
