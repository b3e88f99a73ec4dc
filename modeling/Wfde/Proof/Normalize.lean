import Wfde.Path
import Wfde.Lib.Segments
import Mathlib.Data.List.TakeWhile

/-!
# Normalisation of virtual paths

The parts `NormalizeAndSplit` gives are names: segments of the path that hold no backslash and no
two dots in a row.
-/

namespace Wfde

open Segments

/-- A text without a backslash and without `..`. -/
def Clean (text : Bytes) : Prop := backslash ∉ text ∧ ¬ [dot, dot] <:+: text

theorem Clean.of_isInfix {text part : Bytes} (htext : Clean text) (hpart : part <:+: text) :
    Clean part :=
  ⟨fun h => htext.1 (hpart.subset h), fun h => htext.2 (h.trans hpart)⟩

theorem clean_nil : Clean [] := ⟨by simp, by simp⟩

theorem backslash_ne_slash : backslash ≠ slash := by decide

theorem dot_ne_slash : dot ≠ slash := by decide

theorem clean_cons_slash {text : Bytes} (htext : Clean text) : Clean (slash :: text) := by
  refine ⟨by simpa [backslash_ne_slash] using htext.1, ?_⟩
  intro h
  rcases List.infix_cons_iff.mp h with h | h
  · exact dot_ne_slash (List.cons_prefix_cons.mp h).1
  · exact htext.2 h

/-- A slash keeps the dots on its two sides apart. -/
theorem clean_append_slash {front back : Bytes} (hfront : Clean front) (hback : Clean back) :
    Clean (front ++ slash :: back) := by
  induction front with
  | nil => exact clean_cons_slash hback
  | cons c front ih =>
      have hrest := ih (hfront.of_isInfix (List.suffix_cons c front).isInfix)
      refine ⟨?_, ?_⟩
      · intro h
        rcases List.mem_cons.mp h with rfl | h
        · exact hfront.1 (by simp)
        · exact hrest.1 h
      · intro h
        rcases List.infix_cons_iff.mp h with h | h
        · obtain ⟨hc, h⟩ := List.cons_prefix_cons.mp h
          cases front with
          | nil => exact dot_ne_slash (List.cons_prefix_cons.mp h).1
          | cons next front =>
              have hnext := (List.cons_prefix_cons.mp h).1
              exact hfront.2 ⟨[], front, by rw [← hc, ← hnext]; rfl⟩
        · exact hrest.2 h

theorem clean_joined {parts : List Bytes} (hparts : ∀ part ∈ parts, Clean part) :
    Clean (joined slash parts) := by
  induction parts with
  | nil => exact clean_nil
  | cons part parts ih =>
      have hpart := hparts part (by simp)
      have hrest := ih fun other hother => hparts other (by simp [hother])
      rw [joined_cons]
      cases parts with
      | nil => simpa using clean_cons_slash hpart
      | cons next others =>
          rw [joined_cons, List.cons_append] at hrest ⊢
          exact clean_append_slash (clean_cons_slash hpart)
            (hrest.of_isInfix (List.suffix_cons _ _).isInfix)

/-- A component of a virtual path. -/
def IsName (part : Bytes) : Prop := IsSegment slash part ∧ Clean part

namespace Path

theorem splitLoop_eq (sep : UInt8) (fuel : Nat) (text : Bytes) (hfuel : text.length ≤ fuel) :
    splitLoop sep fuel text = segments sep text := by
  induction fuel generalizing text with
  | zero =>
      obtain rfl : text = [] := by simpa using hfuel
      rfl
  | succ fuel ih =>
      cases text with
      | nil => rfl
      | cons c rest =>
          have hrest : rest.length ≤ fuel := by simpa using hfuel
          by_cases hc : c = sep
          · subst hc
            simp [splitLoop, ih rest hrest]
          · set segment := (c :: rest).takeWhile (· != sep) with hsegment
            set tail := (c :: rest).dropWhile (· != sep) with htail
            have hsplit : segment ++ tail = c :: rest := List.takeWhile_append_dropWhile
            have hdrop : (c :: rest).drop segment.length = tail := drop_length_takeWhile _ _
            have hshort : tail.length ≤ fuel := by
              have hlength := congrArg List.length hsplit
              have hpos := List.length_pos_iff.mpr (isSegment_takeWhile hc rest).1
              simp only [List.length_append, List.length_cons, ← hsegment] at hlength hpos
              omega
            calc splitLoop sep (fuel + 1) (c :: rest)
              _ = segment :: splitLoop sep fuel ((c :: rest).drop segment.length) := by
                  simp [splitLoop, hc, hsegment]
              _ = segments sep (c :: rest) := by
                  rw [hdrop, ih tail hshort, segments_takeWhile hc]

theorem doSplit_eq (text : Bytes) (sep : UInt8) : doSplit text sep = segments sep text :=
  splitLoop_eq sep text.length text le_rfl

theorem split_eq (text : Bytes) : split text = segments slash text := doSplit_eq text slash

theorem appendParts_eq (vpath : Bytes) (parts : List Bytes) :
    appendParts vpath false parts = vpath ++ joined slash parts := by
  induction parts generalizing vpath with
  | nil => simp [appendParts]
  | cons part parts ih => simp [appendParts, ih]

theorem toVpath_nil : toVpath [] = [slash] := rfl

theorem toVpath_cons (part : Bytes) (parts : List Bytes) :
    toVpath (part :: parts) = joined slash (part :: parts) := by
  simp [toVpath, appendParts, appendParts_eq]

theorem split_toVpath {parts : List Bytes} (hparts : ∀ part ∈ parts, IsSegment slash part) :
    split (toVpath parts) = parts := by
  rw [split_eq]
  cases parts with
  | nil => simp [toVpath_nil]
  | cons part parts => rw [toVpath_cons, segments_joined hparts]

theorem clean_toVpath {parts : List Bytes} (hparts : ∀ part ∈ parts, Clean part) :
    Clean (toVpath parts) := by
  cases parts with
  | nil => exact clean_cons_slash clean_nil
  | cons part parts =>
      rw [toVpath_cons]
      exact clean_joined hparts

theorem isName_of_mem_split {text part : Bytes} (htext : Clean text) (hpart : part ∈ split text) :
    IsName part := by
  rw [split_eq] at hpart
  exact ⟨isSegment_of_mem_segments hpart, htext.of_isInfix (isInfix_of_mem_segments hpart)⟩

/-- What the inner loop of `NormalizeAndSplit` takes holds no slash, no backslash and no `..`. -/
theorem scanName_spec {first : Bool} {text : Bytes} {len : Nat} (h : scanName first text = .ok len)
    (hdots : first = true → ¬ [dot, dot] <+: text) :
    slash ∉ text.take len ∧ Clean (text.take len) := by
  induction text generalizing first len with
  | nil => simpa using clean_nil
  | cons c rest ih =>
      unfold scanName at h
      split at h
      · obtain rfl : 0 = len := by simpa using h
        simpa using clean_nil
      · rename_i hslash
        split at h
        · simp at h
        · rename_i hback
          split at h
          · obtain rfl : 0 = len := by simpa using h
            simpa using clean_nil
          · rename_i hdot
            cases hrest : scanName false rest with
            | error e => simp [hrest] at h
            | ok more =>
                obtain rfl : more + 1 = len := by simpa [hrest] using h
                obtain ⟨hno, hclean⟩ := ih hrest (by simp)
                rw [List.take_succ_cons]
                refine ⟨by simpa [Ne.symm hslash] using hno,
                  by simpa [Ne.symm hback] using hclean.1, fun hinfix => ?_⟩
                rcases List.infix_cons_iff.mp hinfix with hfront | hinfix
                · obtain ⟨rfl, hnext⟩ := List.cons_prefix_cons.mp hfront
                  have hhead : [dot] <+: rest := hnext.trans (List.take_prefix _ _)
                  cases first with
                  | true => exact hdots rfl (List.cons_prefix_cons.mpr ⟨rfl, hhead⟩)
                  | false =>
                      obtain ⟨tail, rfl⟩ := hhead
                      simp at hdot
                · exact hclean.2 hinfix

theorem isName_of_scanName {c : UInt8} {rest : Bytes} {len : Nat}
    (h : scanName true (c :: rest) = .ok (len + 1)) (hdots : ¬ [dot, dot] <+: c :: rest) :
    IsName (c :: rest.take len) := by
  obtain ⟨hno, hclean⟩ := scanName_spec h fun _ => hdots
  exact ⟨⟨by simp, hno⟩, hclean⟩

theorem normalizeLoop_names {fuel : Nat} {parts result : List Bytes} {text : Bytes}
    (hparts : ∀ part ∈ parts, IsName part) (h : normalizeLoop fuel parts text = .ok result) :
    ∀ part ∈ result, IsName part := by
  fun_induction normalizeLoop fuel parts text with
  | case1 fuel parts => simpa [← Except.ok.inj h] using hparts
  | case2 => simp at h
  | case3 fuel parts rest ih => exact ih hparts h
  | case4 fuel parts c rest hslash hend ih => exact ih hparts h
  | case5 fuel parts c rest hslash hend hskip ih => exact ih hparts h
  | case6 => simp at h
  | case7 fuel parts c rest hslash hend hskip hdots hup hnonempty ih =>
      exact ih (fun part hpart => hparts part (List.mem_of_mem_dropLast hpart)) h
  | case8 => simp at h
  | case9 fuel parts c rest hslash hend hskip hdots hstuck ih => exact ih hparts h
  | case10 fuel parts c rest hslash hend hskip hdots len hscan ih =>
      refine ih (fun part hpart => ?_) h
      rcases List.mem_append.mp hpart with hpart | hpart
      · exact hparts part hpart
      · obtain rfl := List.mem_singleton.mp hpart
        refine isName_of_scanName hscan fun hprefixed => hdots ?_
        obtain ⟨rfl, tail, rfl⟩ := List.cons_prefix_cons.mp hprefixed
        simp
  | case11 => simp at h

theorem normalizeAndSplit_names {vpath currentDir : Bytes} {parts : List Bytes}
    (hclean : Clean currentDir) (h : normalizeAndSplit vpath currentDir = .ok parts) :
    ∀ part ∈ parts, IsName part := by
  have hdir : ∀ part ∈ split currentDir, IsName part := fun part hpart =>
    isName_of_mem_split hclean hpart
  unfold normalizeAndSplit at h
  split at h
  · simpa [← Except.ok.inj h] using hdir
  · refine normalizeLoop_names ?_ h
    split
    · exact hdir
    · simp

theorem normalize_eq_ok {vpath currentDir normal : Bytes}
    (h : normalize vpath currentDir = .ok normal) :
    ∃ parts, normalizeAndSplit vpath currentDir = .ok parts ∧ normal = toVpath parts := by
  unfold normalize at h
  cases hparts : normalizeAndSplit vpath currentDir with
  | ok parts => exact ⟨parts, rfl, by simpa [hparts] using h.symm⟩
  | error e => simp [hparts] at h

end Path

/-- A fixed point of `Normalize`. The current directory does not matter to a path that is rooted. -/
def IsNormalised (vpath : Bytes) : Prop := Path.normalize vpath [slash] = .ok vpath

instance (vpath : Bytes) : Decidable (IsNormalised vpath) := inferInstanceAs (Decidable (_ = _))

theorem IsNormalised.names {vpath : Bytes} (h : IsNormalised vpath) :
    ∃ parts, (∀ part ∈ parts, IsName part) ∧ vpath = Path.toVpath parts := by
  obtain ⟨parts, hparts, hvpath⟩ := Path.normalize_eq_ok h
  exact ⟨parts, Path.normalizeAndSplit_names (clean_cons_slash clean_nil) hparts, hvpath⟩

theorem IsNormalised.clean {vpath : Bytes} (h : IsNormalised vpath) : Clean vpath := by
  obtain ⟨parts, hparts, rfl⟩ := h.names
  exact Path.clean_toVpath fun part hpart => (hparts part hpart).2

theorem IsNormalised.ne_nil {vpath : Bytes} (h : IsNormalised vpath) : vpath ≠ [] := by
  rintro rfl
  exact absurd h (by decide)

theorem IsNormalised.split {vpath : Bytes} (h : IsNormalised vpath) :
    Path.toVpath (Path.split vpath) = vpath := by
  obtain ⟨parts, hparts, rfl⟩ := h.names
  rw [Path.split_toVpath fun part hpart => (hparts part hpart).1]

end Wfde
