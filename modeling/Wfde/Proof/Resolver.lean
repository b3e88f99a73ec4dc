import Wfde.Proof.Normalize

/-!
# The segment-wise resolver

`NormalizeAndSplit` scans a virtual path character by character. What it does is a fold over the
segments between the slashes, each of which makes a few moves on the components.
-/

namespace Wfde

/-- What a piece of a virtual path does to the components. -/
inductive Move where
  | push (name : Bytes)
  | up
  | refuse
  deriving DecidableEq

namespace Move

def apply (parts : List Bytes) : Move → Except Exception (List Bytes)
  | push name => .ok (parts ++ [name])
  | up => if parts.isEmpty then .error .accessDenied else .ok parts.dropLast
  | refuse => .error .badPath

end Move

namespace Resolver

/-- A dot that has a dot behind it, or ends a segment that is followed by a slash. -/
def isCut (followed : Bool) (segment : Bytes) (k : Nat) : Bool :=
  segment[k]? == some dot
    && (segment[k + 1]? == some dot || k + 1 == segment.length && followed)

/-- The least index, from `start` on, at which a segment is cut. -/
def cutAt (start : Nat) (followed : Bool) (segment : Bytes) : Option Nat :=
  (List.range segment.length).find? fun k => start ≤ k && isCut followed segment k

/-- How much of a segment is a name. -/
def headLength (start : Nat) (followed : Bool) (segment : Bytes) : Nat :=
  (cutAt start followed segment).getD segment.length

theorem headLength_nil (start : Nat) (followed : Bool) : headLength start followed [] = 0 := rfl

theorem isCut_zero {followed : Bool} {c : UInt8} {segment : Bytes} :
    isCut followed (c :: segment) 0 = true
      ↔ c = dot ∧ (segment.head? = some dot ∨ segment = [] ∧ followed = true) := by
  cases segment <;> simp [isCut]

theorem isCut_succ (followed : Bool) (c : UInt8) (segment : Bytes) (k : Nat) :
    isCut followed (c :: segment) (k + 1) = isCut followed segment k := by
  have hlength : (k + 1 + 1 == (c :: segment).length) = (k + 1 == segment.length) := by
    rw [List.length_cons, Bool.eq_iff_iff, beq_iff_eq, beq_iff_eq]
    omega
  rw [isCut, isCut, hlength, List.getElem?_cons_succ, List.getElem?_cons_succ]

theorem cutAt_cons (start : Nat) (followed : Bool) (c : UInt8) (segment : Bytes) :
    cutAt start followed (c :: segment)
      = if start = 0 ∧ isCut followed (c :: segment) 0 = true then some 0
        else (cutAt (start - 1) followed segment).map (· + 1) := by
  have hlater : (List.map Nat.succ (List.range segment.length)).find?
        (fun k => start ≤ k && isCut followed (c :: segment) k)
      = (cutAt (start - 1) followed segment).map (· + 1) := by
    have hsucc (k : Nat) : decide (start ≤ k + 1) = decide (start - 1 ≤ k) := by
      rw [decide_eq_decide]
      omega
    rw [List.find?_map, cutAt]
    simp only [Function.comp_def, Nat.succ_eq_add_one, isCut_succ, hsucc]
  rw [cutAt, List.length_cons, List.range_succ_eq_map, List.find?_cons, hlater]
  by_cases hcut : start = 0 ∧ isCut followed (c :: segment) 0 = true
  · simp [hcut]
  · have hnot : (decide (start ≤ 0) && isCut followed (c :: segment) 0) = false := by
      rw [← Bool.not_eq_true, Bool.and_eq_true, decide_eq_true_eq, Nat.le_zero]
      exact hcut
    rw [if_neg hcut, hnot]

theorem headLength_cons (start : Nat) (followed : Bool) (c : UInt8) (segment : Bytes) :
    headLength start followed (c :: segment)
      = if start = 0 ∧ isCut followed (c :: segment) 0 = true then 0
        else headLength (start - 1) followed segment + 1 := by
  rw [headLength, cutAt_cons]
  split
  · rfl
  · cases hcut : cutAt (start - 1) followed segment with
    | none => simp [headLength, hcut]
    | some k => simp [headLength, hcut]

theorem headLength_pos (followed : Bool) {segment : Bytes} (h : segment ≠ []) :
    0 < headLength 1 followed segment := by
  obtain ⟨c, segment, rfl⟩ := List.exists_cons_of_ne_nil h
  rw [headLength_cons, if_neg (by simp)]
  exact Nat.succ_pos _

theorem headLength_le (start : Nat) (followed : Bool) (segment : Bytes) :
    headLength start followed segment ≤ segment.length := by
  unfold headLength
  cases hcut : cutAt start followed segment with
  | none => exact le_rfl
  | some k => exact (List.mem_range.mp (List.mem_of_find?_eq_some hcut)).le

/-- The moves of a segment; `followed` when a slash comes behind it. -/
def moves (followed : Bool) (segment : Bytes) : List Move :=
  if segment = [] ∨ segment = [dot] then []
  else if segment = [dot, dot] then [.up]
  else if [dot, dot] <+: segment then [.refuse]
  else
    let name := segment.take (headLength 1 followed segment)
    (if backslash ∈ name then .refuse else .push name)
      :: moves followed (segment.drop (headLength 1 followed segment))
termination_by segment.length
decreasing_by
  have hne : segment ≠ [] := fun hnil => by simp_all
  have hlength := List.length_pos_of_ne_nil hne
  have hpos := headLength_pos followed hne
  rw [List.length_drop]
  omega

/-- The segments of a path, with a mark on those that are followed by a slash. -/
def marked : List Bytes → List (Bytes × Bool)
  | [] => []
  | [last] => [(last, false)]
  | segment :: next :: rest => (segment, true) :: marked (next :: rest)

def resolveSegment (parts : List Bytes) (segment : Bytes × Bool) : Except Exception (List Bytes) :=
  (moves segment.2 segment.1).foldlM Move.apply parts

/-- The components of a virtual path, segment by segment. -/
def resolve (vpath currentDir : Bytes) : Except Exception (List Bytes) :=
  if vpath.isEmpty then .ok (Path.split currentDir)
  else
    (marked (vpath.splitOn slash)).foldlM resolveSegment
      (if vpath.headD 0 = slash then [] else Path.split currentDir)

/-- The moves of a path. -/
def movesOf (vpath : Bytes) : List Move :=
  (marked (vpath.splitOn slash)).flatMap fun segment => moves segment.2 segment.1

section Scanner

variable {followed : Bool} {segment tail : Bytes}

/-- What comes behind a segment: a slash, if anything. -/
def Behind (followed : Bool) (tail : Bytes) : Prop :=
  tail.head? = if followed then some slash else none

theorem Behind.isCut_iff (htail : Behind followed tail) (hsegment : slash ∉ segment) (c : UInt8) :
    isCut followed (c :: segment) 0 = true
      ↔ c = dot ∧ ((segment ++ tail).headD 0 = dot ∨ (segment ++ tail).headD 0 = slash) := by
  rw [isCut_zero]
  refine and_congr_right fun _ => ?_
  cases segment with
  | cons next segment =>
      have hnext : next ≠ slash := fun heq => hsegment (by simp [heq])
      simp [hnext]
  | nil =>
      cases followed with
      | true =>
          obtain ⟨tail, rfl⟩ := List.head?_eq_some_iff.mp htail
          simp
      | false =>
          obtain rfl : tail = [] := List.head?_eq_none_iff.mp htail
          simp only [List.append_nil]
          decide

/-- The inner loop of `NormalizeAndSplit` comes to the end of the name. -/
theorem scanName_eq (first : Bool) (hsegment : slash ∉ segment) (htail : Behind followed tail) :
    Path.scanName first (segment ++ tail)
      = if backslash ∈ segment.take (headLength first.toNat followed segment) then .error .badPath
        else .ok (headLength first.toNat followed segment) := by
  induction segment generalizing first with
  | nil =>
      rw [headLength_nil, List.take_zero, if_neg (by simp), List.nil_append]
      cases followed with
      | true =>
          obtain ⟨tail, rfl⟩ := List.head?_eq_some_iff.mp htail
          rw [Path.scanName, if_pos rfl]
      | false =>
          obtain rfl : tail = [] := List.head?_eq_none_iff.mp htail
          rfl
  | cons c segment ih =>
      obtain ⟨hslash, hrest⟩ := not_or.mp (mt List.mem_cons.mpr hsegment)
      have hcut := htail.isCut_iff hrest c
      have hless : first.toNat - 1 = (false : Bool).toNat := by cases first <;> rfl
      have hlength := headLength_cons first.toNat followed c segment
      rw [hless] at hlength
      rw [List.cons_append, Path.scanName, if_neg (Ne.symm hslash)]
      by_cases hback : c = backslash
      · have hnot : ¬ isCut followed (c :: segment) 0 = true := by
          rw [isCut_zero, hback]
          exact fun h => absurd h.1 (by decide)
        rw [if_neg fun h => hnot h.2] at hlength
        rw [if_pos hback, hlength, if_pos (by simp [hback])]
      · rw [if_neg hback]
        by_cases hend : first.toNat = 0 ∧ isCut followed (c :: segment) 0 = true
        · obtain ⟨hc, hhead⟩ := hcut.mp hend.2
          have hfirst : first = false := by simpa using hend.1
          rw [if_pos hend] at hlength
          rw [hlength, if_pos (by simp [hc, hfirst, -List.headD_eq_head?_getD, hhead])]
          simp
        · have hgo : ¬ (decide (c = dot) && !first && (decide ((segment ++ tail).headD 0 = dot)
              || decide ((segment ++ tail).headD 0 = slash))) = true := by
            intro h
            simp only [Bool.and_eq_true, Bool.or_eq_true, Bool.not_eq_true', decide_eq_true_eq] at h
            obtain ⟨⟨hc, hfirst⟩, hhead⟩ := h
            exact hend ⟨by simp [hfirst], hcut.mpr ⟨hc, hhead⟩⟩
          have hmem (n : Nat) :
              backslash ∈ (c :: segment).take (n + 1) ↔ backslash ∈ segment.take n := by
            simp [Ne.symm hback]
          rw [if_neg hend] at hlength
          rw [if_neg hgo, ih false hrest, hlength, if_congr (hmem _) rfl rfl]
          by_cases hname : backslash ∈ segment.take (headLength (false : Bool).toNat followed segment)
          · rw [if_pos hname, if_pos hname]
          · rw [if_neg hname, if_neg hname]

theorem moves_nil (followed : Bool) : moves followed [] = [] := by
  rw [moves, if_pos (.inl rfl)]

theorem moves_dot (followed : Bool) : moves followed [dot] = [] := by
  rw [moves, if_pos (.inr rfl)]

theorem moves_up (followed : Bool) : moves followed [dot, dot] = [.up] := by
  rw [moves, if_neg (by simp), if_pos rfl]

theorem moves_refuse (followed : Bool) (rest : Bytes) (hrest : rest ≠ []) :
    moves followed (dot :: dot :: rest) = [.refuse] := by
  rw [moves, if_neg (by simp), if_neg (by simpa using hrest), if_pos ⟨rest, rfl⟩]

theorem moves_name (hne : segment ≠ []) (hdot : segment ≠ [dot]) (hdots : ¬ [dot, dot] <+: segment) :
    moves followed segment
      = (if backslash ∈ segment.take (headLength 1 followed segment) then .refuse
          else .push (segment.take (headLength 1 followed segment)))
        :: moves followed (segment.drop (headLength 1 followed segment)) := by
  have hup : segment ≠ [dot, dot] := fun heq => hdots (by rw [heq])
  rw [moves, if_neg (not_or.mpr ⟨hne, hdot⟩), if_neg hup, if_neg hdots]

theorem marked_append {segments : List Bytes} (hne : segments ≠ []) (segment : Bytes) :
    marked (segment :: segments) = (segment, true) :: marked segments := by
  obtain ⟨next, segments, rfl⟩ := List.exists_cons_of_ne_nil hne
  rfl

theorem movesOf_segment (hsegment : slash ∉ segment) : movesOf segment = moves false segment := by
  rw [movesOf, List.splitOn_eq_singleton hsegment, marked, List.flatMap_singleton]

theorem movesOf_append_slash (hsegment : slash ∉ segment) (tail : Bytes) :
    movesOf (segment ++ slash :: tail) = moves true segment ++ movesOf tail := by
  rw [movesOf, List.splitOn_append_cons_self, List.splitOn_eq_singleton hsegment,
    List.singleton_append, marked_append (List.splitOn_ne_nil _ _), List.flatMap_cons, movesOf]

theorem movesOf_nil : movesOf [] = [] := by
  rw [movesOf_segment List.not_mem_nil, moves_nil]

theorem movesOf_slash (tail : Bytes) : movesOf (slash :: tail) = movesOf tail := by
  have hcons := movesOf_append_slash List.not_mem_nil tail
  rwa [moves_nil] at hcons

theorem movesOf_append (hsegment : slash ∉ segment) (htail : Behind followed tail) :
    movesOf (segment ++ tail) = moves followed segment ++ movesOf tail := by
  cases followed with
  | true =>
      obtain ⟨tail, rfl⟩ := List.head?_eq_some_iff.mp htail
      rw [movesOf_append_slash hsegment, movesOf_slash]
  | false =>
      obtain rfl : tail = [] := List.head?_eq_none_iff.mp htail
      rw [List.append_nil, movesOf_nil, List.append_nil, movesOf_segment hsegment]

end Scanner

section Loop

theorem exists_segment (vpath : Bytes) : ∃ segment tail followed,
    vpath = segment ++ tail ∧ slash ∉ segment ∧ Behind followed tail := by
  refine ⟨vpath.takeWhile (· != slash), vpath.dropWhile (· != slash),
    !(vpath.dropWhile (· != slash)).isEmpty, List.takeWhile_append_dropWhile.symm, fun hmem => ?_, ?_⟩
  · simpa using List.mem_takeWhile_imp hmem
  · have hhead := List.head?_dropWhile_not (· != slash) vpath
    cases htail : vpath.dropWhile (· != slash) with
    | nil => rfl
    | cons c tail =>
        rw [htail] at hhead
        simpa [Behind] using hhead

theorem movesOf_up {rest : Bytes} (h : rest = [] ∨ rest.headD 0 = slash) :
    movesOf (dot :: dot :: rest) = .up :: movesOf rest.tail := by
  have hslash : slash ∉ [dot, dot] := by decide
  cases rest with
  | nil => rw [movesOf_segment hslash, moves_up, List.tail_nil, movesOf_nil]
  | cons c rest =>
      obtain rfl : c = slash := by simpa using h
      have happend := movesOf_append_slash hslash rest
      rwa [moves_up] at happend

theorem movesOf_refuse {rest : Bytes} (hne : rest ≠ []) (h : rest.headD 0 ≠ slash) :
    ∃ later, movesOf (dot :: dot :: rest) = .refuse :: later := by
  obtain ⟨segment, tail, followed, rfl, hsegment, htail⟩ := exists_segment rest
  have hname : segment ≠ [] := by
    rintro rfl
    cases followed with
    | true =>
        obtain ⟨tail, rfl⟩ := List.head?_eq_some_iff.mp htail
        exact h rfl
    | false => exact hne (List.head?_eq_none_iff.mp htail)
  have hdots : slash ∉ dot :: dot :: segment := by
    simp only [List.mem_cons, hsegment, or_false, not_or]
    decide
  refine ⟨movesOf tail, ?_⟩
  have happend := movesOf_append hdots htail
  rwa [moves_refuse followed segment hname] at happend

/-- Behind the branches for dots and slashes the scanner finds a name, or refuses it. -/
theorem movesOf_name {c : UInt8} {rest : Bytes} (hslash : c ≠ slash)
    (hdot : ¬ (c = dot ∧ (rest = [] ∨ rest.headD 0 = slash ∨ rest.headD 0 = dot))) :
    (Path.scanName true (c :: rest) = .error .badPath
        ∧ ∃ later, movesOf (c :: rest) = .refuse :: later)
      ∨ ∃ len, Path.scanName true (c :: rest) = .ok (len + 1)
        ∧ movesOf (c :: rest) = .push (c :: rest.take len) :: movesOf (rest.drop len) := by
  obtain ⟨segment, tail, followed, rfl, hsegment, htail⟩ := exists_segment rest
  set len := headLength 0 followed segment with hlen
  have hlength : headLength 1 followed (c :: segment) = len + 1 := by
    rw [headLength_cons, if_neg (by simp)]
  have hle : len ≤ segment.length := headLength_le 0 followed segment
  have hwhole : slash ∉ c :: segment := by simp [hsegment, Ne.symm hslash]
  have hnotDot : c :: segment ≠ [dot] := by
    rintro heq
    obtain ⟨rfl, rfl⟩ := List.cons.inj heq
    cases followed with
    | true =>
        obtain ⟨tail, rfl⟩ := List.head?_eq_some_iff.mp htail
        exact hdot ⟨rfl, .inr (.inl rfl)⟩
    | false => exact hdot ⟨rfl, .inl (List.head?_eq_none_iff.mp htail)⟩
  have hnotDots : ¬ [dot, dot] <+: c :: segment := by
    rintro hprefixed
    obtain ⟨rfl, more, rfl⟩ := List.cons_prefix_cons.mp hprefixed
    exact hdot ⟨rfl, .inr (.inr rfl)⟩
  have hscan := scanName_eq true hwhole htail
  have hmoves := movesOf_append hwhole htail
  rw [moves_name (List.cons_ne_nil c segment) hnotDot hnotDots] at hmoves
  simp only [Bool.toNat_true, hlength, List.take_succ_cons, List.drop_succ_cons,
    List.cons_append] at hscan hmoves
  by_cases hback : backslash ∈ c :: segment.take len
  · rw [if_pos hback] at hscan hmoves
    exact .inl ⟨hscan, _, hmoves⟩
  · rw [if_neg hback] at hscan hmoves
    have hdrop : slash ∉ segment.drop len := fun hmem => hsegment (List.mem_of_mem_drop hmem)
    refine .inr ⟨len, hscan, ?_⟩
    rw [List.take_append_of_le_length hle, List.drop_append_of_le_length hle, hmoves,
      movesOf_append hdrop htail]

theorem dots_of_head {c : UInt8} {rest : Bytes}
    (h : (decide (c = dot) && decide (rest.headD 0 = dot)) = true) :
    ∃ more, c = dot ∧ rest = dot :: more
      ∧ ((rest.tail.isEmpty || decide (rest.tail.headD 0 = slash)) = true
        ↔ more = [] ∨ more.headD 0 = slash) := by
  cases rest with
  | nil =>
      obtain ⟨-, hzero⟩ : c = dot ∧ (0 : UInt8) = dot := by simpa using h
      exact absurd hzero (by decide)
  | cons next more =>
      obtain ⟨rfl, rfl⟩ : c = dot ∧ next = dot := by simpa using h
      refine ⟨more, rfl, rfl, ?_⟩
      rw [Bool.or_eq_true, List.tail_cons, List.isEmpty_iff, decide_eq_true_eq]

theorem not_dot {c : UInt8} {rest : Bytes} (hend : ¬ (decide (c = dot) && rest.isEmpty) = true)
    (hskip : ¬ (decide (c = dot) && decide (rest.headD 0 = slash)) = true)
    (hdots : ¬ (decide (c = dot) && decide (rest.headD 0 = dot)) = true) :
    ¬ (c = dot ∧ (rest = [] ∨ rest.headD 0 = slash ∨ rest.headD 0 = dot)) := by
  rintro ⟨rfl, rfl | hhead | hhead⟩
  · exact hend rfl
  · exact hskip (by rw [hhead]; rfl)
  · exact hdots (by rw [hhead]; rfl)

/-- The outer loop of `NormalizeAndSplit` makes the moves of what it has not scanned yet. -/
theorem normalizeLoop_eq {fuel : Nat} {parts : List Bytes} {text : Bytes} (h : text.length ≤ fuel) :
    Path.normalizeLoop fuel parts text = (movesOf text).foldlM Move.apply parts := by
  fun_induction Path.normalizeLoop fuel parts text with
  | case1 fuel parts =>
      rw [movesOf_nil]
      rfl
  | case2 => simp at h
  | case3 fuel parts rest ih => rw [movesOf_slash, ih (Nat.le_of_succ_le_succ h)]
  | case4 fuel parts c rest hslash hend ih =>
      obtain ⟨rfl, rfl⟩ : c = dot ∧ rest = [] := by simpa using hend
      rw [ih (Nat.zero_le _), movesOf_nil, movesOf_segment (show slash ∉ [dot] by decide), moves_dot]
  | case5 fuel parts c rest hslash hend hskip ih =>
      obtain ⟨rfl, hhead⟩ : c = dot ∧ rest.headD 0 = slash := by
        simpa [-List.headD_eq_head?_getD] using hskip
      obtain ⟨rest, rfl⟩ : ∃ tail, rest = slash :: tail := by
        cases rest with
        | nil => exact absurd hhead (by decide)
        | cons next rest => exact ⟨rest, by rw [← hhead]; rfl⟩
      have hmoves := movesOf_append_slash (show slash ∉ [dot] by decide) rest
      rw [moves_dot] at hmoves
      have hlength : rest.length ≤ fuel := by
        simp only [List.length_cons] at h
        omega
      exact (ih hlength).trans (congrArg (List.foldlM Move.apply parts) hmoves.symm)
  | case6 fuel parts c rest hslash hend hskip hdots hup hempty =>
      obtain ⟨rest, rfl, rfl, hbehind⟩ := dots_of_head hdots
      rw [movesOf_up (hbehind.mp hup), List.foldlM_cons, Move.apply, if_pos hempty]
      rfl
  | case7 fuel parts c rest hslash hend hskip hdots hup hnonempty ih =>
      obtain ⟨rest, rfl, rfl, hbehind⟩ := dots_of_head hdots
      have hlength : rest.tail.length ≤ fuel := by
        simp only [List.length_cons] at h
        rw [List.length_tail]
        omega
      rw [movesOf_up (hbehind.mp hup), List.foldlM_cons, Move.apply, if_neg hnonempty]
      exact ih hlength
  | case8 fuel parts c rest hslash hend hskip hdots hup =>
      obtain ⟨rest, rfl, rfl, hbehind⟩ := dots_of_head hdots
      obtain ⟨hne, hhead⟩ := not_or.mp (mt hbehind.mpr hup)
      obtain ⟨later, hmoves⟩ := movesOf_refuse hne hhead
      rw [hmoves]
      rfl
  | case9 fuel parts c rest hslash hend hskip hdots hstuck ih =>
      rcases movesOf_name hslash (not_dot hend hskip hdots) with ⟨hscan, -⟩ | ⟨len, hscan, -⟩
      · rw [hscan] at hstuck
        cases hstuck
      · rw [hscan] at hstuck
        cases hstuck
  | case10 fuel parts c rest hslash hend hskip hdots len hscan ih =>
      rcases movesOf_name hslash (not_dot hend hskip hdots) with ⟨hfail, -⟩ | ⟨len', hname, hmoves⟩
      · rw [hfail] at hscan
        cases hscan
      · obtain rfl : len' = len := by
          rw [hname] at hscan
          exact Nat.succ.inj (Except.ok.inj hscan)
        rw [hmoves, List.foldlM_cons]
        apply ih
        simp only [List.length_cons] at h
        rw [List.length_drop]
        omega
  | case11 fuel parts c rest hslash hend hskip hdots e hscan =>
      rcases movesOf_name hslash (not_dot hend hskip hdots) with
        ⟨hfail, later, hmoves⟩ | ⟨len, hname, -⟩
      · obtain rfl : Exception.badPath = e := by
          rw [hfail] at hscan
          exact Except.error.inj hscan
        rw [hmoves]
        rfl
      · rw [hname] at hscan
        cases hscan

theorem foldlM_resolveSegment (segments : List (Bytes × Bool)) (parts : List Bytes) :
    segments.foldlM resolveSegment parts
      = (segments.flatMap fun segment => moves segment.2 segment.1).foldlM Move.apply parts := by
  induction segments generalizing parts with
  | nil => rfl
  | cons segment segments ih =>
      rw [List.foldlM_cons, List.flatMap_cons, List.foldlM_append, resolveSegment]
      exact congrArg _ (funext ih)

theorem moves_ne_diverged (vpath : List Move) (parts : List Bytes) :
    vpath.foldlM Move.apply parts ≠ .error .diverged := by
  induction vpath generalizing parts with
  | nil => exact fun h => nomatch h
  | cons move vpath ih =>
      rw [List.foldlM_cons]
      cases move with
      | push name => exact ih _
      | refuse => exact fun h => nomatch h
      | up =>
          rw [Move.apply]
          split
          · exact fun h => nomatch h
          · exact ih _

theorem scanName_ne_zero {c : UInt8} (hslash : c ≠ slash) (rest : Bytes) :
    Path.scanName true (c :: rest) ≠ .ok 0 := by
  unfold Path.scanName
  rw [if_neg hslash]
  split
  · intro h
    cases h
  · rw [if_neg (by simp)]
    split
    · intro h
      cases h
    · intro h
      cases h

theorem resolve_eq (vpath currentDir : Bytes) :
    resolve vpath currentDir = Path.normalizeAndSplit vpath currentDir := by
  unfold Path.normalizeAndSplit resolve
  split
  · rfl
  · rw [normalizeLoop_eq le_rfl, foldlM_resolveSegment]
    by_cases hroot : vpath.headD 0 = slash
    · rw [if_pos hroot, hroot]
      rfl
    · rw [if_neg hroot, if_pos (by simpa [-List.headD_eq_head?_getD] using hroot)]
      rfl

theorem resolve_ne_diverged (vpath currentDir : Bytes) :
    resolve vpath currentDir ≠ .error .diverged := by
  rw [resolve]
  split
  · exact fun h => nomatch h
  · rw [foldlM_resolveSegment]
    exact moves_ne_diverged _ _

end Loop

end Resolver

/-- **Normalisation is segment-wise.** The scanner gives what the fold over the segments gives, the
same error when there is one. It never stands still, because its inner loop takes a character of
whatever no other branch has taken. -/
theorem normalizeAndSplit_eq_resolve (vpath currentDir : Bytes) :
    Path.normalizeAndSplit vpath currentDir = Resolver.resolve vpath currentDir
      ∧ Path.normalizeAndSplit vpath currentDir ≠ .error .diverged
      ∧ ∀ c rest, c ≠ slash → Path.scanName true (c :: rest) ≠ .ok 0 := by
  rw [← Resolver.resolve_eq]
  exact ⟨rfl, Resolver.resolve_ne_diverged vpath currentDir,
    fun c rest hslash => Resolver.scanName_ne_zero hslash rest⟩

end Wfde
