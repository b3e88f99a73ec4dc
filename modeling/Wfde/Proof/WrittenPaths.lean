import Wfde.Proof.ConfiguredServers
import Wfde.Proof.PermissionNames

/-!
# Paths written to the configuration

What `SetValue` writes below a node in the layout that `CreatePermissions` documents comes back as
permissions.
-/

namespace Wfde

open Segments Masks WfdeConfigurationPropertyTree

/-- A node below `Paths`, with its key and its three values. -/
structure Mount where
  node : Bytes
  name : Bytes
  path : Bytes
  perms : List (Bytes × PermissionBits)

namespace Mount

def permsText (mount : Mount) : Bytes := [comma].intercalate (mount.perms.map Prod.fst)

/-- The entry that is meant. -/
def entry (platform : Platform) (mount : Mount) : Path :=
  Path.make mount.name (platform.toPPath mount.path) (Path.toPermBits (mount.perms.map Prod.snd))

def values (mount : Mount) : List (List Bytes × Bytes) :=
  [([mount.node, bytes "Name"], mount.name), ([mount.node, bytes "Path"], mount.path),
    ([mount.node, bytes "Perms"], mount.permsText)]

/-- The calls of `SetValue` on a view. -/
def write (view : SubConfig) (conf : WfdeConfigurationPropertyTree) (mount : Mount) :
    WfdeConfigurationPropertyTree :=
  mount.values.foldl (fun conf entry => view.setValue conf (joined slash entry.1) entry.2) conf

variable {mount : Mount} {mounts : List Mount} {conf : WfdeConfigurationPropertyTree}
  {view : SubConfig} {keys : List Bytes}

theorem toPermBitsOfNames_permsText (h : ∀ p ∈ mount.perms, p ∈ permNames) :
    Path.toPermBitsOfNames mount.permsText
      = .ok (Path.toPermBits (mount.perms.map Prod.snd)) := by
  have hsegments : segments comma mount.permsText = mount.perms.map Prod.fst := by
    rw [permsText, segments_intercalate, List.flatMap_map]
    have hone : ∀ p ∈ mount.perms, segments comma p.1 = [p.1] := fun p hp =>
      segments_of_isSegment (isSegment_of_mem_permNames (h p hp))
    rw [List.flatMap_congr hone]
    exact (List.map_eq_flatMap ..).symm
  have hnames : ∀ token ∈ mount.perms.map Prod.fst, IsPermName token := by
    intro token htoken
    obtain ⟨p, hp, rfl⟩ := List.mem_map.mp htoken
    exact ⟨p, h p hp, rfl⟩
  have hbits : (mount.perms.map Prod.fst).map bitOf
      = (mount.perms.map Prod.snd).map PermissionBits.bit := by
    rw [List.map_map, List.map_map]
    exact List.map_congr_left fun p hp => bitOf_of_mem_permNames (h p hp)
  rw [toPermBitsOfNames_eq, hsegments, if_pos hnames, hbits, toPermBits_eq_orAll]

theorem data_write (h : Views view keys) (hnode : IsKey mount.node) :
    (mount.write view conf).data
      = conf.data.putAll [] (mount.values.map fun entry => (keys ++ entry.1, entry.2)) := by
  have hname := areKeys_pair hnode (by decide : IsKey (bytes "Name"))
  have hpath := areKeys_pair hnode (by decide : IsKey (bytes "Path"))
  have hperms := areKeys_pair hnode (by decide : IsKey (bytes "Perms"))
  rw [write, values, List.foldl_cons, List.foldl_cons, List.foldl_cons, List.foldl_nil,
    h.setValue _ hperms, h.setValue _ hpath, h.setValue _ hname]
  rfl

theorem data_writeAll (h : Views view keys) (hnodes : ∀ mount ∈ mounts, IsKey mount.node) :
    (mounts.foldl (fun conf mount => mount.write view conf) conf).data
      = conf.data.putAll []
        ((mounts.flatMap values).map fun entry => (keys ++ entry.1, entry.2)) := by
  induction mounts generalizing conf with
  | nil => rfl
  | cons mount mounts ih =>
      rw [List.foldl_cons, ih fun other hother => hnodes other (List.mem_cons_of_mem _ hother),
        data_write h (hnodes mount List.mem_cons_self), List.flatMap_cons, List.map_append]
      exact List.foldl_append.symm

theorem names_putAll {tree : Ptree} (hnew : ∀ mount ∈ mounts, mount.node ∉ names tree)
    (hnodes : (mounts.map Mount.node).Nodup) :
    names (tree.putAll [] (mounts.flatMap values)) = names tree ++ mounts.map Mount.node := by
  induction mounts generalizing tree with
  | nil => exact (List.append_nil _).symm
  | cons mount mounts ih =>
      rw [List.map_cons, List.nodup_cons] at hnodes
      have hnames : names (tree.putAll [] mount.values) = names tree ++ [mount.node] := by
        have hfirst := KeyTree.keys_put [] tree mount.node [bytes "Name"] mount.name
        have hnot : mount.node ∉ tree.keys := hnew mount List.mem_cons_self
        rw [if_neg hnot] at hfirst
        change KeyTree.keys (KeyTree.put [] (KeyTree.put [] (KeyTree.put [] tree
          [mount.node, bytes "Name"] mount.name) [mount.node, bytes "Path"] mount.path)
          [mount.node, bytes "Perms"] mount.permsText) = _
        rw [KeyTree.keys_put, KeyTree.keys_put, hfirst]
        simp [names]
      have hothers : ∀ other ∈ mounts, other.node ∉ names (tree.putAll [] mount.values) := by
        intro other hother
        rw [hnames, List.mem_append, List.mem_singleton]
        rintro (hold | hsame)
        · exact hnew other (List.mem_cons_of_mem _ hother) hold
        · exact hnodes.1 (List.mem_map.mpr ⟨other, hother, hsame⟩)
      have hput : tree.putAll [] ((mount :: mounts).flatMap values)
          = (tree.putAll [] mount.values).putAll [] (mounts.flatMap values) := by
        rw [List.flatMap_cons]
        exact List.foldl_append
      rw [hput, ih hothers hnodes.2, hnames, List.append_assoc, List.singleton_append, List.map_cons]

theorem nodup_paths_values (hnodes : (mounts.map Mount.node).Nodup) :
    ((mounts.flatMap values).map Prod.fst).Nodup := by
  rw [List.map_flatMap, List.nodup_flatMap]
  constructor
  · intro mount _
    have hkeys : [bytes "Name", bytes "Path", bytes "Perms"].Nodup := by decide
    exact hkeys.map (f := fun key => [mount.node, key]) fun a b hab => by simpa using hab
  · refine (List.pairwise_map.mp hnodes).imp ?_
    intro first second hne path hfirst hsecond
    obtain ⟨entry, hentry, rfl⟩ := List.mem_map.mp hfirst
    obtain ⟨other, hother, hsame⟩ := List.mem_map.mp hsecond
    have hheads (mount : Mount) (entry : List Bytes × Bytes) (h : entry ∈ mount.values) :
        entry.1.head? = some mount.node := by
      rcases List.mem_cons.mp h with rfl | h
      · rfl
      · rcases List.mem_pair.mp h with rfl | rfl
        · rfl
        · rfl
    have hhead := hheads second other hother
    rw [hsame, hheads first entry hentry] at hhead
    exact hne (Option.some.inj hhead)

theorem textAt_putAll (tree : Ptree) (hnodes : (mounts.map Mount.node).Nodup)
    (hmount : mount ∈ mounts) {key value : Bytes} (hvalue : ([mount.node, key], value) ∈ mount.values) :
    textAt (nodeAt (tree.putAll [] (mounts.flatMap values)) [mount.node]) [key] [] = value := by
  have hentry : ([mount.node, key], value) ∈ mounts.flatMap values :=
    List.mem_flatMap.mpr ⟨mount, hmount, hvalue⟩
  have htext := KeyTree.valueAt_putAll [] tree (nodup_paths_values hnodes) hentry
  exact (textAt_append _ [mount.node] [] key []).symm.trans htext

theorem pathOf_putAll (platform : Platform) (tree : Ptree) (hnodes : (mounts.map Mount.node).Nodup)
    (hmount : mount ∈ mounts) (hperms : ∀ p ∈ mount.perms, p ∈ permNames) :
    pathOf platform (nodeAt (tree.putAll [] (mounts.flatMap values)) [mount.node])
      = .ok (mount.entry platform) := by
  have hvalue (key value : Bytes) (h : ([mount.node, key], value) ∈ mount.values) :=
    textAt_putAll tree hnodes hmount h
  rw [pathOf, hvalue (bytes "Name") mount.name (by simp [values]),
    hvalue (bytes "Path") mount.path (by simp [values]),
    hvalue (bytes "Perms") mount.permsText (by simp [values]), toPermBitsOfNames_permsText hperms]
  rfl

end Mount

theorem exists_paths_iff {entries : List Path} : (∃ perms : Permissions, perms.paths = entries)
    ↔ (entries.map Path.vpath).Nodup ∧ (entries.map Path.ppath).Nodup := by
  constructor
  · rintro ⟨perms, rfl⟩
    exact ⟨perms.uniqueVpath, perms.uniquePpath⟩
  · rintro ⟨hvpath, hppath⟩
    exact ⟨⟨entries, hvpath, hppath⟩, rfl⟩

/-- **Written paths.** Paths that are written below an empty node, each under a name of its own, come
back as the permissions that were meant, in their order. They cannot be read if and only if two of the
virtual or two of the physical paths are the same. -/
theorem createPermissions_written_iff (platform : Platform) {conf : WfdeConfigurationPropertyTree}
    {view : SubConfig} {keys : List Bytes} {mounts : List Mount} (h : Views view keys)
    (hempty : names (nodeAt conf.data keys) = []) (hkeys : ∀ mount ∈ mounts, IsKey mount.node)
    (hnodes : (mounts.map Mount.node).Nodup)
    (hperms : ∀ mount ∈ mounts, ∀ p ∈ mount.perms, p ∈ permNames) :
    let entries := mounts.map (Mount.entry platform)
    let created := createPermissions platform
      (mounts.foldl (fun conf mount => mount.write view conf) conf) view
    (∀ perms, created = .ok perms ↔ perms.paths = entries)
      ∧ ((∃ e, created = .error e)
        ↔ ¬ ((entries.map Path.vpath).Nodup ∧ (entries.map Path.ppath).Nodup)) := by
  intro entries created
  have hnode : nodeAt (mounts.foldl (fun conf mount => mount.write view conf) conf).data keys
      = (nodeAt conf.data keys).putAll [] (mounts.flatMap Mount.values) := by
    rw [Mount.data_writeAll h hkeys]
    exact KeyTree.nodeAt_putAll [] conf.data keys _
  have hnames : names ((nodeAt conf.data keys).putAll [] (mounts.flatMap Mount.values))
      = mounts.map Mount.node := by
    rw [Mount.names_putAll (by simp [hempty]) hnodes, hempty, List.nil_append]
  have hall : ∀ name ∈ names (nodeAt
      (mounts.foldl (fun conf mount => mount.write view conf) conf).data keys), IsKey name := by
    rw [hnode, hnames]
    intro name hname
    obtain ⟨mount, hmount, rfl⟩ := List.mem_map.mp hname
    exact hkeys mount hmount
  have hentries : ∀ mount ∈ mounts, ∀ path,
      pathOf platform (nodeAt ((nodeAt conf.data keys).putAll [] (mounts.flatMap Mount.values))
          [mount.node]) = .ok path ↔ path = mount.entry platform := by
    intro mount hmount path
    rw [Mount.pathOf_putAll platform _ hnodes hmount (hperms mount hmount), Except.ok.injEq, eq_comm]
  have hok (perms : Permissions) : created = .ok perms ↔ perms.paths = entries := by
    rw [createPermissions_eq_ok platform h hall, hnode, HasPathsOf, hnames,
      List.forall₂_map_left_iff, Fallible.forall₂_iff_eq_map hentries]
  refine ⟨hok, ?_⟩
  rw [← exists_paths_iff, ← exists_congr hok]
  cases created with
  | error e => simp
  | ok perms => simp

/-- Two paths of the host in the configuration of the sample. -/
theorem createPermissions_written_iff_bin :
    let mounts : List Mount := [⟨bytes "root", bytes "/", bytes "/srv", permNames.take 1⟩,
      ⟨bytes "bin", bytes "bin", bytes "/usr/bin", permNames.drop 16⟩]
    let view := WfdeConfigurationPropertyTree.getConfigForPath (bytes "/Paths")
    ∃ perms, createPermissions noInterfaces
          (mounts.foldl (fun conf mount => mount.write view conf) ⟨.node [] []⟩) view = .ok perms
        ∧ perms.paths = mounts.map (Mount.entry noInterfaces) := by
  intro mounts view
  have hviews : Views view [bytes "Paths"] := ⟨by decide, by decide⟩
  have hread := (@createPermissions_written_iff noInterfaces ⟨.node [] []⟩ view [bytes "Paths"] mounts
    hviews rfl (by decide) (by decide) (by decide)).1
  obtain ⟨perms, hperms⟩ := exists_paths_iff.mpr
    ⟨(by decide : ((mounts.map (Mount.entry noInterfaces)).map Path.vpath).Nodup), by decide⟩
  exact ⟨perms, (hread perms).mpr hperms, hperms⟩

end Wfde
