import Wfde.Proof.Resolver

/-!
# Normalising twice

A dot at the end of a name is kept when the path ends there and cut off in front of a slash, and the
components of the current directory are taken over without a look at them. A normalised path is
normalised to itself if no component that ends in a dot has come to stand in front of another one.
-/

namespace Wfde

open Segments

/-- A component that stays as it is at the end of a path. -/
def Plain (part : Bytes) : Prop := IsName part ∧ part ≠ [dot]

/-- A component that stays as it is in front of a slash. -/
def Inner (part : Bytes) : Prop := IsName part ∧ part.getLast? ≠ some dot

theorem Inner.plain {part : Bytes} (h : Inner part) : Plain part :=
  ⟨h.1, fun hdot => h.2 (by rw [hdot]; rfl)⟩

/-- Components that stay as they are when a path is written from them. -/
structure Settled (parts : List Bytes) : Prop where
  inner : ∀ part ∈ parts.dropLast, Inner part
  plain : ∀ part ∈ parts, Plain part

theorem settled_nil : Settled [] := ⟨by simp, by simp⟩

theorem settled_of_inner {parts : List Bytes} (h : ∀ part ∈ parts, Inner part) : Settled parts :=
  ⟨fun part hpart => h part (List.mem_of_mem_dropLast hpart), fun part hpart => (h part hpart).plain⟩

theorem settled_append {front back : List Bytes} (hback : Settled back) (hne : back ≠ []) :
    Settled (front ++ back) ↔ ∀ part ∈ front, Inner part := by
  constructor
  · intro h part hpart
    apply h.inner
    rw [List.dropLast_append_of_ne_nil hne]
    exact List.mem_append_left _ hpart
  · intro h
    constructor
    · rw [List.dropLast_append_of_ne_nil hne]
      exact List.forall_mem_append.mpr ⟨h, hback.inner⟩
    · exact List.forall_mem_append.mpr ⟨fun part hpart => (h part hpart).plain, hback.plain⟩

namespace Resolver

section Cuts

variable {followed : Bool} {segment : Bytes}

theorem isCut_iff {k : Nat} : isCut followed segment k = true
    ↔ segment[k]? = some dot
      ∧ (segment[k + 1]? = some dot ∨ k + 1 = segment.length ∧ followed = true) := by
  simp [isCut]

theorem not_isCut_of_lt {start k : Nat} (hstart : start ≤ k)
    (hk : k < headLength start followed segment) : ¬ isCut followed segment k = true := by
  unfold headLength cutAt at hk
  cases hcut : (List.range segment.length).find? fun k => start ≤ k && isCut followed segment k with
  | none =>
      rw [hcut] at hk
      have hnone := List.find?_range_eq_none.mp hcut k hk
      simpa [hstart] using hnone
  | some cut =>
      rw [hcut] at hk
      obtain ⟨-, -, hleast⟩ := List.find?_range_eq_some.mp hcut
      simpa [hstart] using hleast k hk

theorem isCut_headLength {start : Nat} (h : headLength start followed segment < segment.length) :
    isCut followed segment (headLength start followed segment) = true := by
  unfold headLength cutAt at h ⊢
  cases hcut : (List.range segment.length).find? fun k => start ≤ k && isCut followed segment k with
  | none =>
      rw [hcut] at h
      exact absurd h (lt_irrefl _)
  | some cut =>
      have hfound := (List.find?_range_eq_some.mp hcut).1
      rw [Bool.and_eq_true] at hfound
      exact hfound.2

theorem dots_isInfix {k : Nat} (hdot : segment[k]? = some dot) (hnext : segment[k + 1]? = some dot) :
    [dot, dot] <:+: segment := by
  obtain ⟨hk, hdot⟩ := List.getElem?_eq_some_iff.mp hdot
  obtain ⟨hk', hnext⟩ := List.getElem?_eq_some_iff.mp hnext
  refine ⟨segment.take k, segment.drop (k + 1 + 1), ?_⟩
  have hdrop : segment.drop k = dot :: dot :: segment.drop (k + 1 + 1) := by
    rw [List.drop_eq_getElem_cons hk, hdot, List.drop_eq_getElem_cons hk', hnext]
  rw [List.append_assoc, List.cons_append, List.cons_append, List.nil_append, ← hdrop,
    List.take_append_drop]

theorem moves_plain (h : Plain segment) (hlast : followed = true → segment.getLast? ≠ some dot) :
    moves followed segment = [.push segment] := by
  obtain ⟨⟨⟨hne, hslash⟩, hback, hdots⟩, hdot⟩ := h
  have hlength : headLength 1 followed segment = segment.length := by
    by_contra hshort
    have hlt : headLength 1 followed segment < segment.length :=
      lt_of_le_of_ne (headLength_le 1 followed segment) hshort
    obtain ⟨hcut, hnext | ⟨hend, hfollowed⟩⟩ := isCut_iff.mp (isCut_headLength hlt)
    · exact hdots (dots_isInfix hcut hnext)
    · apply hlast hfollowed
      rw [List.getLast?_eq_getElem?, ← hend, Nat.add_sub_cancel]
      exact hcut
  have hprefix : ¬ [dot, dot] <+: segment := fun hprefixed => hdots hprefixed.isInfix
  rw [moves_name hne hdot hprefix, hlength, List.take_length, if_neg hback, List.drop_length,
    moves_nil]

theorem eq_cons_of_getElem?_zero {c : UInt8} (h : segment[0]? = some c) :
    ∃ rest, segment = c :: rest := by
  rw [← List.head?_eq_getElem?] at h
  exact List.head?_eq_some_iff.mp h

theorem second_ne_dot (hdots : ¬ [dot, dot] <+: segment) (hfirst : segment[0]? = some dot) :
    segment[1]? ≠ some dot := by
  intro hnext
  obtain ⟨rest, rfl⟩ := eq_cons_of_getElem?_zero hfirst
  obtain ⟨rest, rfl⟩ := eq_cons_of_getElem?_zero (show rest[0]? = some dot from hnext)
  exact hdots ⟨rest, rfl⟩

theorem getElem?_headLength (h : headLength 1 followed segment < segment.length) :
    segment[headLength 1 followed segment]? = some dot :=
  (isCut_iff.mp (isCut_headLength h)).1

theorem name_ne_dot (hne : segment ≠ []) (hdot : segment ≠ [dot]) (hdots : ¬ [dot, dot] <+: segment) :
    segment.take (headLength 1 followed segment) ≠ [dot] := by
  intro hname
  have hpos := headLength_pos followed hne
  have hone : headLength 1 followed segment = 1 := by
    have hlength := congrArg List.length hname
    have hle := headLength_le 1 followed segment
    rw [List.length_take, List.length_singleton] at hlength
    omega
  have hfirst : segment[0]? = some dot := by
    have hhead := congrArg List.head? hname
    rwa [List.head?_take, if_neg hpos.ne', List.head?_eq_getElem?] at hhead
  rcases Nat.lt_or_ge (headLength 1 followed segment) segment.length with hlt | hge
  · have hnext := getElem?_headLength hlt
    rw [hone] at hnext
    exact second_ne_dot hdots hfirst hnext
  · rw [List.take_of_length_le hge] at hname
    exact hdot hname

theorem dots_not_isInfix_name (hdots : ¬ [dot, dot] <+: segment) :
    ¬ [dot, dot] <:+: segment.take (headLength 1 followed segment) := by
  rintro ⟨front, back, hparts⟩
  have hlength := congrArg List.length hparts
  simp only [List.length_append, List.length_cons, List.length_nil, List.length_take] at hlength
  have hat (k : Nat) (hk : k < headLength 1 followed segment) :
      segment[k]? = (front ++ [dot, dot] ++ back)[k]? := by
    rw [hparts, List.getElem?_take, if_pos hk]
  have hcut : segment[front.length]? = some dot := by
    rw [hat _ (by omega)]
    simp
  have hnext : segment[front.length + 1]? = some dot := by
    rw [hat _ (by omega)]
    simp
  rcases Nat.eq_zero_or_pos front.length with hzero | hpos
  · rw [hzero] at hcut hnext
    exact second_ne_dot hdots hcut hnext
  · have hlt : front.length < headLength 1 followed segment := by omega
    exact not_isCut_of_lt hpos hlt (isCut_iff.mpr ⟨hcut, .inl hnext⟩)

theorem name_last (hne : segment ≠ []) (hdot : segment ≠ [dot]) (hdots : ¬ [dot, dot] <+: segment)
    (hlast : (segment.take (headLength 1 followed segment)).getLast? = some dot) :
    headLength 1 followed segment = segment.length ∧ followed = false := by
  have hpos := headLength_pos followed hne
  have hle := headLength_le 1 followed segment
  have hname : segment.take (headLength 1 followed segment) ≠ [dot] := name_ne_dot hne hdot hdots
  set len := headLength 1 followed segment with hlen
  have hlastDot : segment[len - 1]? = some dot := by
    rw [List.getLast?_eq_getElem?, List.length_take, Nat.min_eq_left hle, List.getElem?_take,
      if_pos (Nat.sub_lt hpos Nat.one_pos)] at hlast
    exact hlast
  have hstart : 1 ≤ len - 1 := by
    by_contra hone
    have hlen1 : len = 1 := by omega
    apply hname
    rw [hlen1] at hlastDot ⊢
    obtain ⟨rest, hrest⟩ := eq_cons_of_getElem?_zero hlastDot
    rw [hrest]
    rfl
  have hnot := mt isCut_iff.mpr (not_isCut_of_lt hstart (show len - 1 < len by omega))
  rw [Nat.sub_add_cancel hpos] at hnot
  have hend : len = segment.length := by
    by_contra hshorter
    exact hnot ⟨hlastDot, .inl (getElem?_headLength (lt_of_le_of_ne hle hshorter))⟩
  refine ⟨hend, ?_⟩
  by_contra hfollowed
  exact hnot ⟨hlastDot, .inr ⟨hend, by simpa using hfollowed⟩⟩

theorem name_plain (hne : segment ≠ []) (hslash : slash ∉ segment) (hdot : segment ≠ [dot])
    (hdots : ¬ [dot, dot] <+: segment)
    (hback : backslash ∉ segment.take (headLength 1 followed segment)) :
    Plain (segment.take (headLength 1 followed segment)) := by
  have hsegment : IsSegment slash (segment.take (headLength 1 followed segment)) := by
    refine ⟨fun hnil => ?_, fun hmem => hslash (List.mem_of_mem_take hmem)⟩
    rcases List.take_eq_nil_iff.mp hnil with hzero | hnil
    · exact (headLength_pos followed hne).ne' hzero
    · exact hne hnil
  exact ⟨⟨hsegment, hback, dots_not_isInfix_name hdots⟩, name_ne_dot hne hdot hdots⟩

end Cuts

section Moves

/-- Every name that is pushed stays as it is in front of a slash. -/
def AllInner (moves : List Move) : Prop := ∀ name, .push name ∈ moves → Inner name

/-- The names that are pushed stay as they are, those that others may follow in front of a slash
too. -/
structure Pushes (moves : List Move) : Prop where
  inner : AllInner moves.dropLast
  plain : ∀ name, .push name ∈ moves → Plain name

theorem allInner_nil : AllInner [] := fun _ h => nomatch h

theorem pushes_nil : Pushes [] := ⟨allInner_nil, fun _ h => nomatch h⟩

theorem AllInner.append {front back : List Move} (hfront : AllInner front) (hback : AllInner back) :
    AllInner (front ++ back) := by
  intro name hname
  rcases List.mem_append.mp hname with hname | hname
  · exact hfront name hname
  · exact hback name hname

theorem AllInner.pushes {moves : List Move} (h : AllInner moves) : Pushes moves :=
  ⟨fun name hname => h name (List.mem_of_mem_dropLast hname), fun name hname => (h name hname).plain⟩

theorem AllInner.append_pushes {front back : List Move} (hfront : AllInner front) (hback : Pushes back) :
    Pushes (front ++ back) := by
  cases hcase : back with
  | nil =>
      rw [List.append_nil]
      exact hfront.pushes
  | cons move rest =>
      rw [← hcase]
      constructor
      · rw [List.dropLast_append_of_ne_nil (by simp [hcase])]
        exact hfront.append hback.inner
      · intro name hname
        rcases List.mem_append.mp hname with hname | hname
        · exact (hfront name hname).plain
        · exact hback.plain name hname

/-- A segment pushes names that stay as they are. Only the one that ends a path can end in a dot. -/
theorem moves_pushes (followed : Bool) (segment : Bytes) (hslash : slash ∉ segment) :
    Pushes (moves followed segment) ∧ (followed = true → AllInner (moves followed segment)) := by
  fun_induction moves followed segment with
  | case1 => exact ⟨pushes_nil, fun _ => allInner_nil⟩
  | case2 =>
      have hup : AllInner [.up] := fun name hname => by simp at hname
      exact ⟨hup.pushes, fun _ => hup⟩
  | case3 =>
      have hrefuse : AllInner [.refuse] := fun name hname => by simp at hname
      exact ⟨hrefuse.pushes, fun _ => hrefuse⟩
  | case4 segment hskip hup hdots name ih =>
      obtain ⟨hne, hdot⟩ := not_or.mp hskip
      obtain ⟨hrest, hrestInner⟩ := ih fun hmem => hslash (List.mem_of_mem_drop hmem)
      by_cases hback : backslash ∈ name
      · have hrefuse : AllInner [.refuse] := fun name hname => by simp at hname
        rw [if_pos hback]
        exact ⟨hrefuse.append_pushes hrest, fun hfollowed => hrefuse.append (hrestInner hfollowed)⟩
      · have hplain : Plain name := name_plain hne hslash hdot hdots hback
        have hsingle (hlast : name.getLast? ≠ some dot) : AllInner [.push name] := by
          intro other hother
          obtain rfl : other = name := by simpa using hother
          exact ⟨hplain.1, hlast⟩
        rw [if_neg hback]
        by_cases hlast : name.getLast? = some dot
        · obtain ⟨hend, hfollowed⟩ := name_last hne hdot hdots hlast
          rw [hend, List.drop_length, moves_nil]
          refine ⟨⟨allInner_nil, fun other hother => ?_⟩, fun htrue => absurd htrue (by simp [hfollowed])⟩
          obtain rfl : other = name := by simpa using hother
          exact hplain
        · have hinner := hsingle hlast
          exact ⟨hinner.append_pushes hrest, fun hfollowed => hinner.append (hrestInner hfollowed)⟩

theorem movesOf_pushes (vpath : Bytes) : Pushes (movesOf vpath) := by
  have hsegments (segments : List Bytes) (hslash : ∀ segment ∈ segments, slash ∉ segment) :
      Pushes ((marked segments).flatMap fun segment => moves segment.2 segment.1) := by
    induction segments with
    | nil => exact pushes_nil
    | cons segment segments ih =>
        obtain ⟨hsegment, hrest⟩ := List.forall_mem_cons.mp hslash
        cases segments with
        | nil =>
            rw [marked, List.flatMap_singleton]
            exact (moves_pushes false segment hsegment).1
        | cons next rest =>
            rw [marked, List.flatMap_cons]
            exact AllInner.append_pushes ((moves_pushes true segment hsegment).2 rfl) (ih hrest)
  exact hsegments _ fun segment hsegment => not_mem_of_mem_splitOn hsegment

end Moves

section Balance

/-- How many components of the current directory are kept, and how many are behind them. -/
structure Balance where
  kept : Nat
  added : Nat
  deriving DecidableEq

def Balance.step : Balance → Move → Balance
  | ⟨kept, added⟩, .push _ => ⟨kept, added + 1⟩
  | ⟨kept, added + 1⟩, .up => ⟨kept, added⟩
  | ⟨kept, 0⟩, .up => ⟨kept - 1, 0⟩
  | balance, .refuse => balance

def balance (dir : List Bytes) (moves : List Move) : Balance :=
  moves.foldl Balance.step ⟨dir.length, 0⟩

/-- The components are what is kept of a directory, and the names added to it. -/
def Splits (dir : List Bytes) (balance : Balance) (parts added : List Bytes) : Prop :=
  parts = dir.take balance.kept ++ added ∧ balance.added = added.length
    ∧ balance.kept ≤ dir.length

variable {dir parts added result : List Bytes} {balance : Balance} {moves : List Move}

theorem Splits.step (h : Splits dir balance parts added) {move : Move}
    (hmove : move.apply parts = .ok result) :
    ∃ added', Splits dir (balance.step move) result added'
      ∧ (added' = added.dropLast ∨ ∃ name, move = .push name ∧ added' = added ++ [name]) := by
  obtain ⟨kept, count⟩ := balance
  obtain ⟨rfl, hlength, hle⟩ := h
  replace hlength : count = added.length := hlength
  replace hle : kept ≤ dir.length := hle
  cases move with
  | refuse => cases hmove
  | push name =>
      obtain rfl := Except.ok.inj hmove
      refine ⟨added ++ [name], ⟨List.append_assoc _ _ _, ?_, hle⟩, .inr ⟨name, rfl, rfl⟩⟩
      rw [List.length_append, List.length_singleton, ← hlength]
      rfl
  | up =>
      rw [Move.apply] at hmove
      split at hmove
      · cases hmove
      · obtain rfl := Except.ok.inj hmove
        refine ⟨added.dropLast, ?_, .inl rfl⟩
        rcases eq_or_ne added [] with rfl | hne
        · obtain rfl : count = 0 := hlength
          refine ⟨?_, rfl, (Nat.sub_le _ _).trans hle⟩
          rw [List.append_nil, List.dropLast_nil, List.append_nil, List.dropLast_eq_take,
            List.length_take, Nat.min_eq_left hle, List.take_take, Nat.min_eq_left (Nat.sub_le _ _)]
          rfl
        · obtain ⟨count, rfl⟩ : ∃ n, count = n + 1 :=
            Nat.exists_eq_succ_of_ne_zero (hlength ▸ (List.length_pos_of_ne_nil hne).ne')
          refine ⟨List.dropLast_append_of_ne_nil hne, ?_, hle⟩
          rw [List.length_dropLast, ← hlength]
          rfl

theorem Splits.run (h : Splits dir balance parts added) (hadded : ∀ part ∈ added, Inner part)
    (hmoves : AllInner moves) (hrun : moves.foldlM Move.apply parts = .ok result) :
    ∃ added', Splits dir (moves.foldl Balance.step balance) result added'
      ∧ ∀ part ∈ added', Inner part := by
  induction moves generalizing balance parts added with
  | nil =>
      obtain rfl := Except.ok.inj hrun
      exact ⟨added, h, hadded⟩
  | cons move moves ih =>
      rw [List.foldlM_cons] at hrun
      cases hmove : move.apply parts with
      | error e =>
          rw [hmove] at hrun
          cases hrun
      | ok next =>
          rw [hmove] at hrun
          obtain ⟨added', hsplits, hlast⟩ := h.step hmove
          refine ih hsplits ?_ (fun name hname => hmoves name (List.mem_cons_of_mem _ hname)) hrun
          rcases hlast with rfl | ⟨name, rfl, rfl⟩
          · exact fun part hpart => hadded part (List.mem_of_mem_dropLast hpart)
          · refine List.forall_mem_append.mpr ⟨hadded, fun part hpart => ?_⟩
            obtain rfl := List.mem_singleton.mp hpart
            exact hmoves part List.mem_cons_self

theorem splits_movesOf {vpath : Bytes}
    (hrun : (movesOf vpath).foldlM Move.apply dir = .ok result) :
    ∃ added, Splits dir (Resolver.balance dir (movesOf vpath)) result added ∧ Settled added := by
  have hpushes := movesOf_pushes vpath
  have hstart : Splits dir ⟨dir.length, 0⟩ dir [] := ⟨by simp, rfl, le_rfl⟩
  rw [Resolver.balance]
  rcases (movesOf vpath).eq_nil_or_concat with hnil | ⟨front, last, hmoves⟩
  · rw [hnil] at hrun ⊢
    obtain rfl := Except.ok.inj hrun
    exact ⟨[], hstart, settled_nil⟩
  · rw [List.concat_eq_append] at hmoves
    rw [hmoves] at hrun hpushes ⊢
    rw [List.foldlM_append] at hrun
    rw [List.foldl_append]
    cases hfront : front.foldlM Move.apply dir with
    | error e =>
        rw [hfront] at hrun
        cases hrun
    | ok parts =>
        rw [hfront] at hrun
        have hinner := hpushes.inner
        rw [List.dropLast_concat] at hinner
        obtain ⟨added, hsplits, hadded⟩ := hstart.run (by simp) hinner hfront
        replace hrun : (last.apply parts >>= pure) = .ok result := hrun
        rw [bind_pure] at hrun
        obtain ⟨added', hsplits', hcases⟩ := hsplits.step hrun
        refine ⟨added', hsplits', ?_⟩
        rcases hcases with rfl | ⟨name, rfl, rfl⟩
        · exact settled_of_inner fun part hpart => hadded part (List.mem_of_mem_dropLast hpart)
        · have hname : Settled [name] := by
            refine ⟨by simp, fun part hpart => ?_⟩
            obtain rfl := List.mem_singleton.mp hpart
            exact hpushes.plain part (by simp)
          exact (settled_append hname (List.cons_ne_nil _ _)).mpr hadded

end Balance

section Paths

theorem movesOf_joined {parts : List Bytes} (h : Settled parts) :
    movesOf (joined slash parts) = parts.map .push := by
  induction parts with
  | nil => exact movesOf_nil
  | cons part parts ih =>
      have hplain := h.plain part List.mem_cons_self
      have hslash : slash ∉ part := hplain.1.1.2
      have hbehind : Behind (!parts.isEmpty) (joined slash parts) := by
        cases parts <;> rfl
      have hlast : (!parts.isEmpty) = true → part.getLast? ≠ some dot := by
        intro hne
        obtain ⟨next, rest, rfl⟩ := List.exists_cons_of_ne_nil
          (show parts ≠ [] by simpa using hne)
        exact (h.inner part (by simp)).2
      have hrest : Settled parts := by
        refine ⟨fun other hother => h.inner other ?_, fun other hother =>
          h.plain other (List.mem_cons_of_mem _ hother)⟩
        rw [List.dropLast_cons_of_ne_nil (List.ne_nil_of_mem (List.mem_of_mem_dropLast hother))]
        exact List.mem_cons_of_mem _ hother
      rw [joined_cons, List.cons_append, movesOf_slash, movesOf_append hslash hbehind,
        moves_plain hplain hlast, ih hrest]
      rfl

theorem movesOf_toVpath {parts : List Bytes} (h : Settled parts) :
    movesOf (Path.toVpath parts) = parts.map .push := by
  cases parts with
  | nil => rw [Path.toVpath_nil, movesOf_slash, movesOf_nil, List.map_nil]
  | cons part parts => rw [Path.toVpath_cons, movesOf_joined h]

theorem foldlM_push (start parts : List Bytes) :
    (parts.map Move.push).foldlM Move.apply start = .ok (start ++ parts) := by
  induction parts generalizing start with
  | nil => rw [List.append_nil]; rfl
  | cons part parts ih =>
      rw [List.map_cons, List.foldlM_cons, List.append_cons]
      exact ih (start ++ [part])

/-- The components that a path starts from. -/
def base (vpath currentDir : Bytes) : List Bytes :=
  if vpath.headD 0 = slash then [] else Path.split currentDir

theorem normalizeAndSplit_eq (vpath currentDir : Bytes) :
    Path.normalizeAndSplit vpath currentDir
      = (movesOf vpath).foldlM Move.apply (base vpath currentDir) := by
  rw [← resolve_eq, resolve]
  cases vpath with
  | nil => rw [movesOf_nil]; rfl
  | cons c rest =>
      rw [if_neg (by simp), foldlM_resolveSegment]
      rfl

theorem base_toVpath (parts : List Bytes) (currentDir : Bytes) :
    base (Path.toVpath parts) currentDir = [] := by
  cases parts with
  | nil => rfl
  | cons part parts =>
      rw [Path.toVpath_cons, joined_cons]
      rfl

theorem normalize_toVpath_iff {parts : List Bytes} (hparts : ∀ part ∈ parts, IsSegment slash part) :
    (∀ dir, Path.normalize (Path.toVpath parts) dir = .ok (Path.toVpath parts)) ↔ Settled parts := by
  constructor
  · intro hsame
    obtain ⟨again, hagain, hvpath⟩ := Path.normalize_eq_ok (hsame [slash])
    rw [normalizeAndSplit_eq, base_toVpath] at hagain
    obtain ⟨added, ⟨hadded, -, -⟩, hsettled⟩ := splits_movesOf hagain
    rw [List.take_nil, List.nil_append] at hadded
    have hsegments : ∀ part ∈ again, IsSegment slash part := by
      rw [hadded]
      exact fun part hpart => (hsettled.plain part hpart).1.1
    have hsplit := congrArg Path.split hvpath
    rw [Path.split_toVpath hparts, Path.split_toVpath hsegments] at hsplit
    rw [hsplit, hadded]
    exact hsettled
  · intro hsettled dir
    rw [Path.normalize, normalizeAndSplit_eq, base_toVpath, movesOf_toVpath hsettled, foldlM_push]
    rfl

/-- Of the components that a path keeps of the current directory, those that come to stand in front
of others are names that do not end in a dot, and one that comes to stand at the end is a name other
than a dot. -/
def KeepsSettled (vpath currentDir : Bytes) : Prop :=
  let dir := base vpath currentDir
  let balance := balance dir (movesOf vpath)
  let kept := dir.take balance.kept
  if balance.added = 0 then Settled kept else ∀ part ∈ kept, Inner part

end Paths

/-- The components of a normalised path stay as they are if those taken over from the current
directory do. -/
theorem settled_iff {vpath currentDir : Bytes} {parts : List Bytes}
    (h : Path.normalizeAndSplit vpath currentDir = .ok parts) :
    (∀ part ∈ parts, IsSegment slash part) ∧ (Settled parts ↔ KeepsSettled vpath currentDir) := by
  rw [normalizeAndSplit_eq] at h
  obtain ⟨added, ⟨rfl, hadded, hle⟩, hsettled⟩ := splits_movesOf h
  set kept := (base vpath currentDir).take (balance (base vpath currentDir) (movesOf vpath)).kept
  constructor
  · refine List.forall_mem_append.mpr ⟨fun part hpart => ?_, fun part hpart =>
      (hsettled.plain part hpart).1.1⟩
    have hbase := List.mem_of_mem_take hpart
    unfold base at hbase
    split at hbase
    · cases hbase
    · rw [Path.split_eq] at hbase
      exact isSegment_of_mem_segments hbase
  · rw [KeepsSettled, hadded]
    rcases eq_or_ne added [] with rfl | hne
    · rw [List.append_nil, if_pos List.length_nil]
    · rw [settled_append hsettled hne, if_neg (List.length_pos_of_ne_nil hne).ne']

theorem keepsSettled_iff {vpath currentDir normal : Bytes}
    (h : Path.normalize vpath currentDir = .ok normal) :
    KeepsSettled vpath currentDir ↔ ∀ dir, Path.normalize normal dir = .ok normal := by
  obtain ⟨parts, hparts, rfl⟩ := Path.normalize_eq_ok h
  obtain ⟨hsegments, hsettled⟩ := settled_iff hparts
  rw [normalize_toVpath_iff hsegments, hsettled]

end Resolver

open Resolver in
/-- **Normalising again.** What comes out of `Normalize` is normalised to itself, whatever the
current directory, if and only if the components that were taken over from the first one stay as
they are where they have come to stand. -/
theorem normalize_again_iff {vpath currentDir normal : Bytes}
    (h : Path.normalize vpath currentDir = .ok normal) :
    (∀ dir, Path.normalize normal dir = .ok normal) ↔ KeepsSettled vpath currentDir :=
  (keepsSettled_iff h).symm

theorem normalize_again_iff_below_a :
    (∀ dir, Path.normalize (bytes "/a/b") dir = .ok (bytes "/a/b"))
      ↔ Resolver.KeepsSettled (bytes "b") (bytes "/a") :=
  normalize_again_iff (by decide)

/-- A directory whose name ends in a dot is a normalised path. A file in it has one too, which is
normalised to another. -/
theorem not_normalize_again_dotted :
    Path.normalize (bytes "a.") [slash] = .ok (bytes "/a.")
      ∧ Path.normalize (bytes "b") (bytes "/a.") = .ok (bytes "/a./b")
      ∧ Path.normalize (bytes "/a./b") [slash] = .ok (bytes "/a/b")
      ∧ ¬ ∀ dir, Path.normalize (bytes "/a./b") dir = .ok (bytes "/a./b") :=
  ⟨by decide, by decide, by decide, fun hsame => absurd (hsame [slash]) (by decide)⟩

end Wfde
