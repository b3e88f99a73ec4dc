import Wfde.Permissions
import Wfde.Lib.PrefixSearch
import Wfde.Proof.Normalize

/-!
# Permission lookup

`GetPath` walks the entries in the order of their virtual paths and keeps the last one whose
characters are a prefix of the path. That is the longest such entry; it is the nearest configured
ancestor only when it ends where a component of the path ends.
-/

namespace Wfde

open Segments PrefixSearch

namespace Permissions

/-- The characters of a virtual path, read behind its end as `GetPath` reads them, start with these
of another. -/
def IsCharPrefix (currVpath vpath : Bytes) : Prop :=
  currVpath <+: vpath ++ List.replicate currVpath.length 0

instance (currVpath vpath : Bytes) : Decidable (IsCharPrefix currVpath vpath) :=
  inferInstanceAs (Decidable (_ <+: _))

theorem isCharPrefix_iff {currVpath vpath : Bytes} {n : Nat} (hn : currVpath.length ≤ n) :
    IsCharPrefix currVpath vpath ↔ currVpath <+: vpath ++ List.replicate n 0 := by
  have hsplit : vpath ++ List.replicate n 0
      = (vpath ++ List.replicate currVpath.length 0) ++ List.replicate (n - currVpath.length) 0 := by
    rw [List.append_assoc, List.replicate_append_replicate, Nat.add_sub_of_le hn]
  rw [hsplit, List.isPrefix_append_of_length (by simp)]
  rfl

theorem matchLength_eq_length_iff (currVpath vpath : Bytes) :
    matchLength currVpath vpath = currVpath.length ↔ IsCharPrefix currVpath vpath := by
  induction currVpath generalizing vpath with
  | nil => simp [matchLength, IsCharPrefix]
  | cons c rest ih =>
      have hcons : IsCharPrefix (c :: rest) vpath
          ↔ c = vpath.headD 0 ∧ IsCharPrefix rest vpath.tail := by
        cases vpath with
        | nil => simp [IsCharPrefix, List.replicate_succ, List.cons_prefix_cons]
        | cons first others =>
            rw [IsCharPrefix, List.cons_append, List.cons_prefix_cons, List.headD_cons, List.tail_cons,
              isCharPrefix_iff (by simp : rest.length ≤ (c :: rest).length)]
      rw [hcons, ← ih]
      by_cases hc : c = vpath.headD 0
      · rw [matchLength, if_pos hc, List.length_cons, Nat.add_right_cancel_iff]
        exact (and_iff_right hc).symm
      · rw [matchLength, if_neg hc]
        exact iff_of_false (Nat.succ_ne_zero rest.length).symm fun h => hc h.1

theorem isCharPrefix_self (vpath : Bytes) : IsCharPrefix vpath vpath :=
  List.prefix_append vpath _

theorem IsCharPrefix.of_isPrefix {dir vpath : Bytes} (h : dir <+: vpath) : IsCharPrefix dir vpath :=
  h.trans (List.prefix_append vpath _)

theorem IsCharPrefix.prefix_of_le {dir vpath : Bytes} (h : IsCharPrefix dir vpath)
    (hle : dir.length ≤ vpath.length) : dir <+: vpath :=
  (List.isPrefix_append_of_length hle).mp h

theorem IsCharPrefix.eq_of_length_eq {dir vpath : Bytes} (h : IsCharPrefix dir vpath)
    (hlen : dir.length = vpath.length) : dir = vpath :=
  (h.prefix_of_le hlen.le).eq_of_length hlen

theorem length_le_of_isCharPrefix {a b vpath : Bytes} (ha : IsCharPrefix a vpath)
    (hb : IsCharPrefix b vpath) (hab : a ≤ b) : a.length ≤ b.length := by
  have ha' := (isCharPrefix_iff (Nat.le_max_left a.length b.length)).mp ha
  have hb' := (isCharPrefix_iff (Nat.le_max_right a.length b.length)).mp hb
  exact length_le_of_le ha' hb' hab

theorem eq_of_isCharPrefix {a b vpath : Bytes} (ha : IsCharPrefix a vpath)
    (hb : IsCharPrefix b vpath) (hlen : a.length = b.length) : a = b := by
  have ha' := (isCharPrefix_iff hlen.le).mp ha
  have hb' : b <+: vpath ++ List.replicate b.length 0 := hb
  exact (List.prefix_of_prefix_length_le ha' hb' hlen.le).eq_of_length hlen

/-- The entries that the walk takes for a match. -/
def isMatch (vpath : Bytes) (path : Path) : Bool :=
  path.vpath.length != 0 && decide (IsCharPrefix path.vpath vpath)

/-- What the walk makes of the last match. -/
def bestOf (vpath : Bytes) (path : Path) : Option (Path × Nat) :=
  if path.isRecursive then some (path, skipSlashes vpath path.vpath.length) else none

theorem walk_eq (vpath : Bytes) (bestMatch : Option (Path × Nat)) (paths : List Path) :
    walk vpath bestMatch paths =
      match paths.find? (·.vpath == vpath) with
      | some path => .full path
      | none =>
          match (paths.filter (isMatch vpath)).getLast? with
          | some path => .best (bestOf vpath path)
          | none => .best bestMatch := by
  induction paths generalizing bestMatch with
  | nil => rfl
  | cons path rest ih =>
      by_cases hfull : path.vpath = vpath
      · have hlen := (matchLength_eq_length_iff vpath vpath).mpr (isCharPrefix_self vpath)
        simp [walk, hlen, hfull]
      · rw [List.find?_cons_of_neg (by simpa using hfull)]
        by_cases hmatch : isMatch vpath path = true
        · obtain ⟨hne, hchars⟩ : path.vpath.length ≠ 0 ∧ IsCharPrefix path.vpath vpath := by
            simpa [isMatch] using hmatch
          have hlen := (matchLength_eq_length_iff _ _).mpr hchars
          have hshort : ¬ path.vpath.length = vpath.length := fun h =>
            hfull (hchars.eq_of_length_eq h)
          have hstep : walk vpath bestMatch (path :: rest) = walk vpath (bestOf vpath path) rest := by
            by_cases hrec : path.isRecursive = true <;> simp [walk, hlen, hshort, hne, bestOf, hrec]
          rw [hstep, ih, List.filter_cons_of_pos hmatch]
          cases hlast : (rest.filter (isMatch vpath)).getLast? with
          | some last => simp [List.getLast?_cons, hlast]
          | none => simp [List.getLast?_cons, hlast]
        · have hstep : walk vpath bestMatch (path :: rest) = walk vpath bestMatch rest := by
            by_cases hchars : IsCharPrefix path.vpath vpath
            · have hempty : path.vpath.length = 0 := by simpa [isMatch, hchars] using hmatch
              have hshort : ¬ 0 = vpath.length := by
                intro h
                exact hfull (hchars.eq_of_length_eq (hempty.trans h))
              have hlen := (matchLength_eq_length_iff _ _).mpr hchars
              simp [walk, hlen, hempty, hshort]
            · have hlen := mt (matchLength_eq_length_iff _ _).mp hchars
              simp [walk, hlen]
          rw [hstep, ih, List.filter_cons_of_neg hmatch]

theorem byVpath_pairwise (self : Permissions) :
    self.byVpath.Pairwise fun a b => a.vpath ≤ b.vpath := by
  have htrans : IsTrans Path fun a b => a.vpath ≤ b.vpath :=
    ⟨fun _ _ _ hab hbc => Std.le_trans hab hbc⟩
  have htotal : Std.Total fun a b : Path => a.vpath ≤ b.vpath :=
    ⟨fun a b => Std.le_total⟩
  exact List.pairwise_insertionSort _ self.paths

theorem mem_byVpath (self : Permissions) (path : Path) : path ∈ self.byVpath ↔ path ∈ self.paths :=
  (List.perm_insertionSort _ self.paths).mem_iff

theorem eq_of_vpath_eq (self : Permissions) {a b : Path} (ha : a ∈ self.paths)
    (hb : b ∈ self.paths) (h : a.vpath = b.vpath) : a = b :=
  List.inj_on_of_nodup_map self.uniqueVpath ha hb h

/-- The entry with the longest virtual path among those whose characters start the path. -/
def IsLongestPrefix (self : Permissions) (vpath : Bytes) (path : Path) : Prop :=
  path ∈ self.paths ∧ IsCharPrefix path.vpath vpath
    ∧ ∀ other ∈ self.paths, IsCharPrefix other.vpath vpath → other.vpath.length ≤ path.vpath.length

theorem IsLongestPrefix.unique {self : Permissions} {vpath : Bytes} {a b : Path}
    (ha : self.IsLongestPrefix vpath a) (hb : self.IsLongestPrefix vpath b) : a = b :=
  self.eq_of_vpath_eq ha.1 hb.1 (eq_of_isCharPrefix ha.2.1 hb.2.1
    (Nat.le_antisymm (hb.2.2 a ha.1 ha.2.1) (ha.2.2 b hb.1 hb.2.1)))

theorem getPath_cases (self : Permissions) {vpath : Bytes}
    (hrooted : ∀ path ∈ self.paths, path.vpath ≠ [])
    (hnone : ∀ path ∈ self.paths, path.vpath ≠ vpath) (remaining : Option Bytes) :
    ((∀ path ∈ self.paths, ¬ IsCharPrefix path.vpath vpath)
        ∧ self.getPath vpath remaining = .error .accessDenied)
      ∨ ∃ path, self.IsLongestPrefix vpath path
        ∧ self.getPath vpath remaining =
          if path.isRecursive then
            (assignRemaining vpath (skipSlashes vpath path.vpath.length) remaining).map
              fun remaining => (path, remaining)
          else .error .accessDenied := by
  have hfind : self.byVpath.find? (·.vpath == vpath) = none := by
    rw [List.find?_eq_none]
    intro path hpath
    simpa using hnone path ((self.mem_byVpath path).mp hpath)
  have hmatch : ∀ path ∈ self.paths, isMatch vpath path = true ↔ IsCharPrefix path.vpath vpath := by
    intro path hpath
    simp [isMatch, hrooted path hpath]
  cases hlast : (self.byVpath.filter (isMatch vpath)).getLast? with
  | none =>
      refine .inl ⟨fun path hpath => ?_, ?_⟩
      · rw [← hmatch path hpath]
        simpa using getLast?_filter_eq_none_iff.mp hlast path ((self.mem_byVpath path).mpr hpath)
      · simp [getPath, walk_eq, hfind, hlast]
  | some path =>
      obtain ⟨hmem, hp⟩ := mem_of_getLast?_filter hlast
      rw [mem_byVpath] at hmem
      have hchars := (hmatch path hmem).mp hp
      refine .inr ⟨path, ⟨hmem, hchars, fun other hother hotherChars => ?_⟩, ?_⟩
      · have hrel := eq_or_rel_of_getLast?_filter self.byVpath_pairwise hlast
          ((self.mem_byVpath other).mpr hother) ((hmatch other hother).mpr hotherChars)
        rcases hrel with rfl | hle
        · exact le_rfl
        · exact length_le_of_isCharPrefix hotherChars hchars hle
      · simp only [getPath, walk_eq, hfind, hlast]
        unfold bestOf
        by_cases hrec : path.isRecursive = true <;> simp [hrec]

theorem getPath_exact (self : Permissions) {vpath : Bytes} {path : Path} (hpath : path ∈ self.paths)
    (hvpath : path.vpath = vpath) (remaining : Option Bytes) :
    self.getPath vpath remaining = .ok (path, remaining) := by
  cases hfind : self.byVpath.find? (·.vpath == vpath) with
  | none =>
      rw [List.find?_eq_none] at hfind
      exact absurd (by simpa using hvpath) (hfind path ((self.mem_byVpath path).mpr hpath))
  | some found =>
      have hfound := List.find?_some hfind
      have hmem := (self.mem_byVpath found).mp (List.mem_of_find?_eq_some hfind)
      obtain rfl : found = path := self.eq_of_vpath_eq hmem hpath
        ((by simpa using hfound : found.vpath = vpath).trans hvpath.symm)
      simp [getPath, walk_eq, hfind]

/-- Without an entry for the whole path, what the walk finds does not depend on the caller's string,
which is overwritten. -/
theorem getPath_of_no_entry (self : Permissions) {vpath : Bytes}
    (hnone : ∀ path ∈ self.paths, path.vpath ≠ vpath) :
    (∀ remaining, self.getPath vpath remaining = .error .accessDenied)
      ∨ ∃ path ∈ self.paths, ∃ remainingIt, ∀ remaining,
        self.getPath vpath remaining
          = (assignRemaining vpath remainingIt remaining).map fun remaining => (path, remaining) := by
  have hfind : self.byVpath.find? (·.vpath == vpath) = none := by
    rw [List.find?_eq_none]
    intro path hpath
    simpa using hnone path ((self.mem_byVpath path).mp hpath)
  cases hlast : (self.byVpath.filter (isMatch vpath)).getLast? with
  | none => exact .inl fun remaining => by simp [getPath, walk_eq, hfind, hlast]
  | some path =>
      have hmem := (self.mem_byVpath path).mp (mem_of_getLast?_filter hlast).1
      by_cases hrec : path.isRecursive = true
      · refine .inr ⟨path, hmem, skipSlashes vpath path.vpath.length, fun remaining => ?_⟩
        simp [getPath, walk_eq, hfind, hlast, bestOf, hrec]
      · exact .inl fun remaining => by simp [getPath, walk_eq, hfind, hlast, bestOf, hrec]

theorem assignRemaining_some {vpath text : Bytes} {remainingIt : Nat} {left : Option Bytes}
    (h : assignRemaining vpath remainingIt (some text) = .ok left) :
    left = some (vpath.drop remainingIt) := by
  simp only [assignRemaining] at h
  split at h
  · cases h
  · exact (Except.ok.inj h).symm

theorem assignRemaining_ne_accessDenied {vpath : Bytes} {remainingIt : Nat}
    {remaining : Option Bytes} :
    assignRemaining vpath remainingIt remaining ≠ .error .accessDenied := by
  cases remaining with
  | none => simp [assignRemaining]
  | some text =>
      simp only [assignRemaining]
      split <;> simp

end Permissions

open Permissions

/-- A proper ancestor, component by component. -/
def IsAncestor (dir vpath : Bytes) : Prop :=
  Path.split dir <+: Path.split vpath ∧ Path.split dir ≠ Path.split vpath

instance (dir vpath : Bytes) : Decidable (IsAncestor dir vpath) :=
  inferInstanceAs (Decidable (_ ∧ _))

/-- An ancestor is the first characters of its descendants; behind it and the slashes that follow
are the remaining components. -/
theorem IsAncestor.drop {dir vpath : Bytes} (hdir : IsNormalised dir) (hvpath : IsNormalised vpath)
    (h : IsAncestor dir vpath) :
    dir <+: vpath ∧ dir ≠ vpath ∧ vpath.drop (skipSlashes vpath dir.length)
      = Path.toVpath ((Path.split vpath).drop (Path.split dir).length) false := by
  obtain ⟨front, hfront, rfl⟩ := hdir.names
  obtain ⟨parts, hparts, rfl⟩ := hvpath.names
  unfold IsAncestor at h
  rw [Path.split_toVpath fun part hpart => (hfront part hpart).1,
    Path.split_toVpath fun part hpart => (hparts part hpart).1] at h ⊢
  obtain ⟨⟨more, rfl⟩, hne⟩ := h
  cases more with
  | nil => simp at hne
  | cons next more =>
      have hnext : IsName next := hparts next (by simp)
      obtain ⟨c, name, rfl⟩ : ∃ c name, next = c :: name := List.exists_cons_of_ne_nil hnext.1.1
      have hc : c ≠ slash := fun h => hnext.1.2 (by simp [h])
      have hrest : Path.toVpath ((c :: name) :: more) false = c :: name ++ joined slash more := by
        simp [Path.toVpath, Path.appendParts, Path.appendParts_eq]
      rw [List.drop_left, hrest]
      cases front with
      | nil =>
          rw [List.nil_append, Path.toVpath_nil, Path.toVpath_cons, joined_cons]
          refine ⟨⟨_, rfl⟩, by simp, ?_⟩
          simp [skipSlashes, hc]
      | cons part front =>
          have hwhole : Path.toVpath ((part :: front) ++ (c :: name) :: more)
              = joined slash (part :: front) ++ slash :: (c :: name ++ joined slash more) := by
            rw [List.cons_append, Path.toVpath_cons, ← List.cons_append, joined_append, joined_cons
              (c :: name)]
            rfl
          rw [hwhole, Path.toVpath_cons]
          refine ⟨List.prefix_append _ _, by simp, ?_⟩
          rw [skipSlashes, List.drop_left, ← List.drop_drop, List.drop_left]
          simp [hc]

/-- The configured ancestor with the longest virtual path. -/
def IsNearest (perms : Permissions) (vpath : Bytes) (path : Path) : Prop :=
  path ∈ perms.paths ∧ IsAncestor path.vpath vpath
    ∧ ∀ other ∈ perms.paths, IsAncestor other.vpath vpath → other.vpath.length ≤ path.vpath.length

/-- What a lookup component by component gives. -/
structure ResolvesNearest (perms : Permissions) (vpath : Bytes) (remaining : Option Bytes)
    (result : Except Exception (Path × Option Bytes)) : Prop where
  exact : ∀ path ∈ perms.paths, path.vpath = vpath → ∃ left, result = .ok (path, left)
  nearest : (∀ path ∈ perms.paths, path.vpath ≠ vpath) →
    ∀ path, IsNearest perms vpath path → path.isRecursive = true →
      result = .ok (path, remaining.map fun _ =>
        Path.toVpath ((Path.split vpath).drop (Path.split path.vpath).length) false)
  denied : (∀ path ∈ perms.paths, path.vpath ≠ vpath) →
    (∀ path, IsNearest perms vpath path → path.isRecursive = false) → result = .error .accessDenied

/-- The longest configured prefix of the path ends where one of its components ends, or it is not
recursive and neither is the nearest ancestor. -/
def PrefixIsAncestor (perms : Permissions) (vpath : Bytes) : Prop :=
  (∃ path ∈ perms.paths, path.vpath = vpath)
    ∨ ∀ path, perms.IsLongestPrefix vpath path → IsAncestor path.vpath vpath
      ∨ path.isRecursive = false ∧ ∀ other, IsNearest perms vpath other → other.isRecursive = false

section Nearest

variable {perms : Permissions} {vpath : Bytes} (hperms : ∀ path ∈ perms.paths, IsNormalised path.vpath)
  (hvpath : IsNormalised vpath)

include hperms hvpath

theorem IsNearest.isCharPrefix {path : Path} (h : IsNearest perms vpath path) :
    IsCharPrefix path.vpath vpath :=
  .of_isPrefix (h.2.1.drop (hperms path h.1) hvpath).1

theorem isNearest_of_isLongestPrefix {path : Path} (h : perms.IsLongestPrefix vpath path)
    (hancestor : IsAncestor path.vpath vpath) : IsNearest perms vpath path :=
  ⟨h.1, hancestor, fun other hother hotherAncestor => h.2.2 other hother
    (.of_isPrefix (hotherAncestor.drop (hperms other hother) hvpath).1)⟩

theorem IsNearest.unique {a b : Path} (ha : IsNearest perms vpath a) (hb : IsNearest perms vpath b) :
    a = b :=
  perms.eq_of_vpath_eq ha.1 hb.1 (eq_of_isCharPrefix (ha.isCharPrefix hperms hvpath)
    (hb.isCharPrefix hperms hvpath) (Nat.le_antisymm (hb.2.2 a ha.1 ha.2.1) (ha.2.2 b hb.1 hb.2.1)))

theorem assignRemaining_ancestor {path : Path} (h : IsNearest perms vpath path)
    (remaining : Option Bytes) :
    assignRemaining vpath (skipSlashes vpath path.vpath.length) remaining
      = .ok (remaining.map fun _ =>
        Path.toVpath ((Path.split vpath).drop (Path.split path.vpath).length) false) := by
  obtain ⟨hprefixed, hne, hdrop⟩ := h.2.1.drop (hperms path h.1) hvpath
  have hinside : ¬ vpath.length < skipSlashes vpath path.vpath.length := by
    have hle := hprefixed.length_le
    have hslashes : ((vpath.drop path.vpath.length).takeWhile (· == slash)).length
        ≤ (vpath.drop path.vpath.length).length := (List.takeWhile_sublist _).length_le
    simp only [List.length_drop] at hslashes
    unfold skipSlashes
    omega
  cases remaining with
  | none => rfl
  | some text => simp [assignRemaining, hinside, hdrop]

theorem resolvesNearest_of_isNearest {path : Path} {remaining : Option Bytes}
    {result : Except Exception (Path × Option Bytes)}
    (hnone : ∀ path ∈ perms.paths, path.vpath ≠ vpath) (hnear : IsNearest perms vpath path)
    (hresult : result = if path.isRecursive then
        (assignRemaining vpath (skipSlashes vpath path.vpath.length) remaining).map
          fun remaining => (path, remaining)
      else .error .accessDenied) : ResolvesNearest perms vpath remaining result := by
  have hassign := assignRemaining_ancestor hperms hvpath hnear remaining
  refine ⟨fun other hother h => absurd h (hnone other hother), fun _ other hother hrec => ?_,
    fun _ hclosed => ?_⟩
  · obtain rfl := hother.unique hperms hvpath hnear
    rw [hresult, if_pos hrec, hassign]
    rfl
  · rw [hresult, if_neg (by simp [hclosed path hnear])]

omit hperms hvpath in
theorem resolvesNearest_iff_of_not_isAncestor {path : Path} {remaining : Option Bytes}
    {result : Except Exception (Path × Option Bytes)}
    (hnone : ∀ path ∈ perms.paths, path.vpath ≠ vpath) (hancestor : ¬ IsAncestor path.vpath vpath)
    (hresult : result = if path.isRecursive then
        (assignRemaining vpath (skipSlashes vpath path.vpath.length) remaining).map
          fun remaining => (path, remaining)
      else .error .accessDenied) :
    ResolvesNearest perms vpath remaining result
      ↔ path.isRecursive = false
        ∧ ∀ other, IsNearest perms vpath other → other.isRecursive = false := by
  constructor
  · intro hresolves
    have hclosed : ∀ other, IsNearest perms vpath other → other.isRecursive = false := by
      intro other hother
      by_contra hrec
      have hok := hresolves.nearest hnone other hother (by simpa using hrec)
      rw [hresult] at hok
      split at hok
      · cases hassign : assignRemaining vpath (skipSlashes vpath path.vpath.length) remaining with
        | error e => simp [hassign, Except.map] at hok
        | ok rest =>
            obtain ⟨rfl, -⟩ : path = other ∧ _ := by simpa [hassign, Except.map] using hok
            exact hancestor hother.2.1
      · simp at hok
    refine ⟨?_, hclosed⟩
    by_contra hrec
    have hdenied := hresolves.denied hnone hclosed
    rw [hresult, if_pos (by simpa using hrec)] at hdenied
    cases hassign : assignRemaining vpath (skipSlashes vpath path.vpath.length) remaining with
    | error e =>
        obtain rfl : e = .accessDenied := by simpa [hassign, Except.map] using hdenied
        exact assignRemaining_ne_accessDenied hassign
    | ok rest => simp [hassign, Except.map] at hdenied
  · rintro ⟨hrec, hclosed⟩
    refine ⟨fun other hother h => absurd h (hnone other hother), fun _ other hother hother' => ?_,
      fun _ _ => ?_⟩
    · simp [hclosed other hother] at hother'
    · rw [hresult, if_neg (by simp [hrec])]

theorem getPath_resolvesNearest_iff_of_none (remaining : Option Bytes)
    (hnone : ∀ path ∈ perms.paths, path.vpath ≠ vpath) :
    ResolvesNearest perms vpath remaining (perms.getPath vpath remaining)
      ↔ ∀ path, perms.IsLongestPrefix vpath path → IsAncestor path.vpath vpath
        ∨ path.isRecursive = false
          ∧ ∀ other, IsNearest perms vpath other → other.isRecursive = false := by
  have hrooted : ∀ path ∈ perms.paths, path.vpath ≠ [] := fun path hpath =>
    (hperms path hpath).ne_nil
  rcases perms.getPath_cases hrooted hnone remaining with ⟨hno, hresult⟩ | ⟨path, hlongest, hresult⟩
  · refine iff_of_true ⟨fun other hother h => absurd h (hnone other hother),
      fun _ other hother => ?_, fun _ _ => hresult⟩ fun path hpath => absurd hpath.2.1 (hno path hpath.1)
    exact absurd (hother.isCharPrefix hperms hvpath) (hno other hother.1)
  · have hall : (∀ other, perms.IsLongestPrefix vpath other → IsAncestor other.vpath vpath
          ∨ other.isRecursive = false ∧ ∀ near, IsNearest perms vpath near → near.isRecursive = false)
        ↔ IsAncestor path.vpath vpath
          ∨ path.isRecursive = false ∧ ∀ near, IsNearest perms vpath near → near.isRecursive = false :=
      ⟨fun h => h path hlongest, fun h other hother => hother.unique hlongest ▸ h⟩
    rw [hall]
    by_cases hancestor : IsAncestor path.vpath vpath
    · have hnear := isNearest_of_isLongestPrefix hperms hvpath hlongest hancestor
      exact iff_of_true (resolvesNearest_of_isNearest hperms hvpath hnone hnear hresult)
        (.inl hancestor)
    · rw [resolvesNearest_iff_of_not_isAncestor hnone hancestor hresult]
      exact (or_iff_right hancestor).symm

end Nearest

/-- **Permission lookup.** `GetPath` resolves a path to its nearest configured ancestor if and only
if the longest configured prefix does not end inside a component, the cases apart where both ways
deny the access. -/
theorem getPath_resolvesNearest_iff (perms : Permissions)
    (hperms : ∀ path ∈ perms.paths, IsNormalised path.vpath) (vpath : Bytes)
    (hvpath : IsNormalised vpath) (remaining : Option Bytes) :
    ResolvesNearest perms vpath remaining (perms.getPath vpath remaining)
      ↔ PrefixIsAncestor perms vpath := by
  unfold PrefixIsAncestor
  by_cases hexact : ∃ path ∈ perms.paths, path.vpath = vpath
  · obtain ⟨path, hpath, hvpath'⟩ := hexact
    refine iff_of_true ⟨fun other hother h => ⟨remaining, perms.getPath_exact hother h remaining⟩,
      fun hnone => ?_, fun hnone => ?_⟩ (.inl ⟨path, hpath, hvpath'⟩)
    · exact absurd hvpath' (hnone path hpath)
    · exact absurd hvpath' (hnone path hpath)
  · have hnone : ∀ path ∈ perms.paths, path.vpath ≠ vpath := fun path hpath h =>
      hexact ⟨path, hpath, h⟩
    rw [getPath_resolvesNearest_iff_of_none hperms hvpath remaining hnone, or_iff_right hexact]

/-- Two entries of which neither lies below the other. -/
def siblingMounts : Permissions :=
  ⟨[.make (bytes "/") [bytes "srv"] (Path.toPermBits [.canRead, .isRecursive]),
      .make (bytes "/pub") [bytes "pub"] (Path.toPermBits [.canEnter, .canRead, .isRecursive])],
    by decide, by decide⟩

theorem getPath_resolvesNearest_below_pub :
    ResolvesNearest siblingMounts (bytes "/pub/docs/a") (some [])
      (siblingMounts.getPath (bytes "/pub/docs/a") (some [])) :=
  (getPath_resolvesNearest_iff siblingMounts (by decide) _ (by decide) _).mpr
    (.inr fun path hpath => .inl (by
      have hmem : path ∈ siblingMounts.paths := hpath.1
      simp only [siblingMounts, List.mem_cons, List.not_mem_nil, or_false] at hmem
      rcases hmem with rfl | rfl <;> decide))

/-- The entry `/pub` is taken for an ancestor of `/public`. -/
theorem not_getPath_resolvesNearest_public :
    (∀ path ∈ siblingMounts.paths, IsNormalised path.vpath) ∧ IsNormalised (bytes "/public")
      ∧ (siblingMounts.getPath (bytes "/public") (some [])).map (fun found =>
          (found.1.ppath, found.2)) = .ok ([bytes "pub"], some (bytes "lic"))
      ∧ ¬ ResolvesNearest siblingMounts (bytes "/public") (some [])
        (siblingMounts.getPath (bytes "/public") (some [])) := by
  refine ⟨by decide, by decide, by decide, fun h => ?_⟩
  have hnear : IsNearest siblingMounts (bytes "/public") (siblingMounts.paths.head (by decide)) := by
    unfold IsNearest
    decide
  have hroot := h.nearest (by decide) _ hnear (by decide)
  exact absurd hroot (by decide)

/-- What a lookup leaves in the caller's string does not depend on what was in it, and is empty for an
entry of its own. -/
def LeavesOwnRemaining (perms : Permissions) (vpath before before' : Bytes) : Prop :=
  ∀ path left path' left', perms.getPath vpath (some before) = .ok (path, left) →
    perms.getPath vpath (some before') = .ok (path', left') →
    left = left' ∧ (path.vpath = vpath → left = some [])

theorem leavesOwnRemaining_of_no_entry {perms : Permissions} {vpath : Bytes}
    (hnone : ∀ path ∈ perms.paths, path.vpath ≠ vpath) (before before' : Bytes) :
    LeavesOwnRemaining perms vpath before before' := by
  intro path left path' left' hpath hpath'
  rcases perms.getPath_of_no_entry hnone with hdenied | ⟨found, hfound, remainingIt, hresult⟩
  · rw [hdenied] at hpath
    cases hpath
  · rw [hresult] at hpath hpath'
    cases hassign : assignRemaining vpath remainingIt (some before) with
    | error e => simp [hassign, Except.map] at hpath
    | ok rest =>
        cases hassign' : assignRemaining vpath remainingIt (some before') with
        | error e => simp [hassign', Except.map] at hpath'
        | ok rest' =>
            obtain ⟨rfl, rfl⟩ : found = path ∧ rest = left := by
              simpa [hassign, Except.map] using hpath
            obtain ⟨rfl, rfl⟩ : found = path' ∧ rest' = left' := by
              simpa [hassign', Except.map] using hpath'
            refine ⟨?_, fun hown => absurd hown (hnone found hfound)⟩
            rw [assignRemaining_some hassign, assignRemaining_some hassign']

/-- **The remaining path depends on the lookup alone if and only if there is no entry for the whole
path, or there is nothing in the caller's string to be cleared.** -/
theorem leavesOwnRemaining_iff (perms : Permissions) (vpath before before' : Bytes) :
    LeavesOwnRemaining perms vpath before before'
      ↔ ((∃ path ∈ perms.paths, path.vpath = vpath) → before = [] ∧ before' = []) := by
  constructor
  · rintro hown ⟨path, hpath, hvpath⟩
    obtain ⟨hsame, hempty⟩ := hown path (some before) path (some before')
      (perms.getPath_exact hpath hvpath _) (perms.getPath_exact hpath hvpath _)
    have hbefore : before = [] := Option.some.inj (hempty hvpath)
    exact ⟨hbefore, (Option.some.inj hsame).symm.trans hbefore⟩
  · intro hclear
    by_cases hexact : ∃ path ∈ perms.paths, path.vpath = vpath
    · obtain ⟨rfl, rfl⟩ := hclear hexact
      obtain ⟨entry, hentry, hvpath⟩ := hexact
      intro path left path' left' hpath hpath'
      rw [perms.getPath_exact hentry hvpath] at hpath hpath'
      cases hpath
      cases hpath'
      exact ⟨rfl, fun _ => rfl⟩
    · exact leavesOwnRemaining_of_no_entry
        (fun path hpath hvpath => hexact ⟨path, hpath, hvpath⟩) before before'

/-- The rest of an earlier lookup is still there after `/pub` has been found. -/
theorem not_leavesOwnRemaining_pub :
    siblingMounts.getPath (bytes "/pub") (some (bytes "a/b"))
        = .ok (siblingMounts.paths.get ⟨1, by decide⟩, some (bytes "a/b"))
      ∧ ¬ LeavesOwnRemaining siblingMounts (bytes "/pub") (bytes "a/b") [] := by
  have hfound : ∀ remaining, siblingMounts.getPath (bytes "/pub") remaining
      = .ok (siblingMounts.paths.get ⟨1, by decide⟩, remaining) :=
    siblingMounts.getPath_exact (by decide) (by decide)
  refine ⟨hfound _, fun hown => ?_⟩
  have hsame := (hown _ _ _ _ (hfound _) (hfound _)).1
  exact absurd hsame (by decide)

end Wfde
