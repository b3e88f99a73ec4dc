import Wfde.Proof.Confinement

/-!
# Mount points below a directory

What `GetVpaths` finds. The byte it asks to be a slash is the last one of the path it was given, not
the one behind it. Only the root ends in a slash.
-/

namespace Wfde

open Segments

namespace Session

theorem nameBelow_root {parts : List Bytes} (hparts : ∀ part ∈ parts, IsName part) :
    nameBelow [slash] (Path.toVpath parts) = parts.head? := by
  cases parts with
  | nil => rfl
  | cons part parts =>
      obtain ⟨hne, hslash⟩ := (hparts part (by simp)).1
      obtain ⟨c, name, rfl⟩ : ∃ c name, part = c :: name := List.exists_cons_of_ne_nil hne
      have hname : ∀ b ∈ name, (b != slash) = true := by
        intro b hb
        have hbs : b ≠ slash := by
          rintro rfl
          exact hslash (by simp [hb])
        simpa using hbs
      have hjoin : (joined slash parts).takeWhile (· != slash) = [] := by
        cases parts <;> simp
      have htake : (name ++ joined slash parts).takeWhile (· != slash) = name := by
        rw [List.takeWhile_append_of_pos hname, hjoin, List.append_nil]
      rw [Path.toVpath_cons, joined_cons]
      simp [nameBelow, htake, Nat.add_comm 1 name.length]

theorem exists_last {front : List Bytes} (hfront : ∀ part ∈ front, IsName part)
    (hne : front ≠ []) : ∃ lead c, Path.toVpath front = lead ++ [c] ∧ c ≠ slash := by
  obtain ⟨others, part, rfl⟩ : ∃ others part, front = others ++ [part] :=
    ⟨front.dropLast, front.getLast hne, (List.dropLast_append_getLast hne).symm⟩
  obtain ⟨hpart, hslash⟩ := (hfront part (by simp)).1
  obtain ⟨name, c, rfl⟩ : ∃ name c, part = name ++ [c] :=
    ⟨part.dropLast, part.getLast hpart, (List.dropLast_append_getLast hpart).symm⟩
  have hothers : ∀ other ∈ others, IsSegment slash other := fun other hother =>
    (hfront other (by simp [hother])).1
  have hc : c ≠ slash := by
    rintro rfl
    exact hslash (by simp)
  rw [← Path.toVpath_append_singleton _ hothers, ← List.append_assoc]
  exact ⟨_, c, rfl, hc⟩

theorem nameBelow_of_ne_slash {lead : Bytes} {c : UInt8} (hc : c ≠ slash) (vpath : Bytes) :
    nameBelow (lead ++ [c]) vpath = none := by
  unfold nameBelow
  split_ifs with hlen htake hlast
  · rfl
  · rfl
  · rfl
  · have hbyte : vpath.getD lead.length 0 = (vpath.take (lead.length + 1)).getD lead.length 0 := by
      simp [List.getD_eq_getElem?_getD]
    rw [not_ne_iff, List.length_append, List.length_singleton] at htake
    rw [not_ne_iff, List.length_append, List.length_singleton, Nat.add_sub_cancel, hbyte, htake]
      at hlast
    exact absurd (by simpa using hlast) hc

theorem nameBelow_below {path : Bytes} (hpath : IsNormalised path) (hroot : path ≠ [slash])
    (vpath : Bytes) : nameBelow path vpath = none := by
  obtain ⟨front, hfront, rfl⟩ := hpath.names
  have hne : front ≠ [] := by
    rintro rfl
    exact hroot rfl
  obtain ⟨lead, c, hlead, hc⟩ := exists_last hfront hne
  rw [hlead]
  exact nameBelow_of_ne_slash hc vpath

section Names

variable {path : Bytes}

theorem mem_addName {rval : List Bytes} {entry : Path} {name : Bytes} :
    name ∈ addName path rval entry ↔ name ∈ rval ∨ nameBelow path entry.vpath = some name := by
  unfold addName
  cases h : nameBelow path entry.vpath with
  | none => simp
  | some found =>
      by_cases hmem : found ∈ rval
      · simp only [if_pos (List.contains_iff_mem.mpr hmem), Option.some.injEq]
        constructor
        · exact .inl
        · rintro (hname | rfl)
          · exact hname
          · exact hmem
      · simp [hmem, eq_comm]

theorem addName_nodup {rval : List Bytes} (h : rval.Nodup) (entry : Path) :
    (addName path rval entry).Nodup := by
  unfold addName
  cases nameBelow path entry.vpath with
  | none => exact h
  | some found =>
      by_cases hmem : found ∈ rval
      · simpa [hmem] using h
      · have hnew : rval.Disjoint [found] := by simpa [List.disjoint_singleton] using hmem
        simpa [hmem] using h.append (List.nodup_singleton found) hnew

theorem foldl_addName (entries : List Path) (rval : List Bytes) (h : rval.Nodup) :
    (entries.foldl (addName path) rval).Nodup
      ∧ ∀ name, name ∈ entries.foldl (addName path) rval
        ↔ name ∈ rval ∨ ∃ entry ∈ entries, nameBelow path entry.vpath = some name := by
  induction entries generalizing rval with
  | nil => exact ⟨h, by simp⟩
  | cons entry entries ih =>
      obtain ⟨hnodup, hmem⟩ := ih (addName path rval entry) (addName_nodup h entry)
      refine ⟨hnodup, fun name => ?_⟩
      rw [List.foldl_cons, hmem, mem_addName, or_assoc]
      simp

theorem getVpaths_nodup (session : Session) (path : Bytes) : (session.getVpaths path).Nodup :=
  (foldl_addName session.permissions.paths [] List.nodup_nil).1

theorem mem_getVpaths (session : Session) (path name : Bytes) :
    name ∈ session.getVpaths path
      ↔ ∃ entry ∈ session.permissions.paths, nameBelow path entry.vpath = some name := by
  rw [getVpaths, (foldl_addName session.permissions.paths [] List.nodup_nil).2 name]
  simp

end Names

/-- The components of the entry start with those of the directory and the name. -/
def IsNextComponent (path vpath name : Bytes) : Prop :=
  Path.split path ++ [name] <+: Path.split vpath

/-- The names one level below a directory at which, or below which, something is mounted. -/
structure FindsMounts (session : Session) (path : Bytes) : Prop where
  once : (session.getVpaths path).Nodup
  names : ∀ name, name ∈ session.getVpaths path
    ↔ ∃ entry ∈ session.permissions.paths, IsNextComponent path entry.vpath name

theorem nameBelow_root_iff {vpath : Bytes} (hvpath : IsNormalised vpath) (name : Bytes) :
    nameBelow [slash] vpath = some name ↔ IsNextComponent [slash] vpath name := by
  obtain ⟨parts, hparts, rfl⟩ := hvpath.names
  have hroot : Path.split [slash] = [] := by decide
  rw [nameBelow_root hparts, IsNextComponent, hroot, List.nil_append,
    Path.split_toVpath fun part hpart => (hparts part hpart).1]
  cases parts with
  | nil => simp
  | cons part parts => simp [List.cons_prefix_cons, eq_comm]

theorem exists_isNextComponent_iff {path vpath : Bytes} :
    (∃ name, IsNextComponent path vpath name) ↔ IsAncestor path vpath := by
  constructor
  · rintro ⟨name, more, hmore⟩
    refine ⟨⟨name :: more, by simp [← hmore]⟩, fun heq => ?_⟩
    simp [heq] at hmore
  · rintro ⟨⟨more, hmore⟩, hne⟩
    cases more with
    | nil => exact absurd (by simpa using hmore) hne
    | cons name more => exact ⟨name, more, by simp [← hmore]⟩

/-- **Mount points below a directory.** `GetVpaths` finds the mount points below the root, and below
any other directory as long as there are none. -/
theorem getVpaths_findsMounts_iff (session : Session) (path : Bytes)
    (hperms : ∀ entry ∈ session.permissions.paths, IsNormalised entry.vpath)
    (hpath : IsNormalised path) :
    FindsMounts session path
      ↔ path = [slash] ∨ ∀ entry ∈ session.permissions.paths, ¬ IsAncestor path entry.vpath := by
  by_cases hroot : path = [slash]
  · subst hroot
    refine iff_of_true ⟨getVpaths_nodup session _, fun name => ?_⟩ (.inl rfl)
    rw [mem_getVpaths]
    constructor
    · rintro ⟨entry, hentry, hname⟩
      exact ⟨entry, hentry, (nameBelow_root_iff (hperms entry hentry) name).mp hname⟩
    · rintro ⟨entry, hentry, hname⟩
      exact ⟨entry, hentry, (nameBelow_root_iff (hperms entry hentry) name).mpr hname⟩
  · have hempty : ∀ name, name ∉ session.getVpaths path := by
      intro name hname
      obtain ⟨entry, hentry, hbelow⟩ := (mem_getVpaths session path name).mp hname
      rw [nameBelow_below hpath hroot] at hbelow
      cases hbelow
    rw [or_iff_right hroot]
    constructor
    · intro h entry hentry hancestor
      obtain ⟨name, hname⟩ := exists_isNextComponent_iff.mpr hancestor
      exact hempty name ((h.names name).mpr ⟨entry, hentry, hname⟩)
    · intro h
      refine ⟨getVpaths_nodup session path, fun name => iff_of_false (hempty name) ?_⟩
      rintro ⟨entry, hentry, hname⟩
      exact h entry hentry (exists_isNextComponent_iff.mp ⟨name, hname⟩)

/-- A mount point at the root, two below it, and one a level further down. -/
def nestedMounts : Session where
  permissions :=
    ⟨[.make (bytes "/") [bytes "srv"] (Path.toPermBits [.canList]),
        .make (bytes "/a/b") [bytes "b"] (Path.toPermBits [.canList]),
        .make (bytes "/a/c/d") [bytes "d"] (Path.toPermBits [.canList])],
      by decide, by decide⟩

theorem getVpaths_findsMounts_root :
    FindsMounts nestedMounts [slash] ∧ nestedMounts.getVpaths [slash] = [bytes "a"] :=
  ⟨(getVpaths_findsMounts_iff nestedMounts [slash] (by decide) (by decide)).mpr (.inl rfl), by decide⟩

/-- `b` and `c` are mounted below `/a`. -/
theorem not_getVpaths_findsMounts_a :
    (∀ entry ∈ nestedMounts.permissions.paths, IsNormalised entry.vpath)
      ∧ IsNormalised (bytes "/a") ∧ nestedMounts.getVpaths (bytes "/a") = []
      ∧ IsNextComponent (bytes "/a") (bytes "/a/b") (bytes "b")
      ∧ ¬ FindsMounts nestedMounts (bytes "/a") := by
  have hnone : nestedMounts.getVpaths (bytes "/a") = [] := by decide
  have hnext : IsNextComponent (bytes "/a") (bytes "/a/b") (bytes "b") := by
    unfold IsNextComponent
    decide
  refine ⟨by decide, by decide, hnone, hnext, fun h => ?_⟩
  have hmem := (h.names (bytes "b")).mpr
    ⟨nestedMounts.permissions.paths.get ⟨1, by decide⟩, by decide, hnext⟩
  rw [hnone] at hmem
  cases hmem

end Session

end Wfde
