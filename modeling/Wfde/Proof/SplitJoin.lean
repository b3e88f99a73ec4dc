import Wfde.Proof.Normalize

/-!
# Splitting and joining virtual paths

`Split` and `ToVpath` are inverse up to the slashes, and `DoSplit` keeps its position and its count
of remaining bytes in step.
-/

namespace Wfde

open Segments

namespace Path

theorem findIdx_eq_length_takeWhile (sep : UInt8) (text : Bytes) :
    text.findIdx (· == sep) = (text.takeWhile (· != sep)).length := by
  have hle : text.findIdx (· == sep) ≤ text.length := List.findIdx_le_length
  simp [List.takeWhile_eq_take_findIdx_not, bne, hle]

namespace SplitState

variable {text : Bytes} {sep : UInt8} {state : SplitState}

/-- The counter is the distance to the end, and what is behind the position holds the missing
parts. -/
structure Inv (text : Bytes) (sep : UInt8) (state : SplitState) : Prop where
  toEnd : state.pos + state.bytesLeft = text.length
  parts_append : state.parts ++ segments sep (text.drop state.pos) = segments sep text

theorem start_inv (text : Bytes) (sep : UInt8) : Inv text sep (start text) :=
  ⟨by simp [start], by simp [start]⟩

theorem segLen_eq (h : Inv text sep state) :
    state.segLen text sep = ((text.drop state.pos).takeWhile (· != sep)).length := by
  rw [← findIdx_eq_length_takeWhile]
  cases hfound : (text.drop state.pos).findIdx? (· == sep) with
  | none =>
      have hend := List.findIdx?_eq_none_iff_findIdx_eq.mp hfound
      have htoEnd := h.toEnd
      rw [List.length_drop] at hend
      simp only [segLen, findFirstOf, hfound, Option.map_none]
      omega
  | some found =>
      have hidx := (List.findIdx?_eq_some_iff_findIdx_eq.mp hfound).2
      simp [segLen, findFirstOf, hfound, hidx]

theorem segLen_le (h : Inv text sep state) : state.segLen text sep ≤ state.bytesLeft := by
  have hlength : ((text.drop state.pos).takeWhile (· != sep)).length ≤ (text.drop state.pos).length :=
    (List.takeWhile_prefix _).length_le
  have htoEnd := h.toEnd
  rw [List.length_drop] at hlength
  rw [segLen_eq h]
  omega

/-- A pass keeps the invariant, and takes at least one byte while there is one. -/
theorem pass_spec (h : Inv text sep state) :
    Inv text sep (pass text sep state)
      ∧ (pass text sep state).bytesLeft ≤ state.bytesLeft - 1 := by
  by_cases hleft : state.bytesLeft = 0
  · have hpass : pass text sep state = state := by simp [pass, hleft]
    rw [hpass]
    exact ⟨h, by omega⟩
  have htoEnd := h.toEnd
  have hpos : state.pos < text.length := by omega
  have hdrop : text.drop state.pos = text[state.pos] :: text.drop (state.pos + 1) :=
    List.drop_eq_getElem_cons hpos
  by_cases hsep : text[state.pos] = sep
  · have hpass : pass text sep state
        = { state with pos := state.pos + 1, bytesLeft := state.bytesLeft - 1 } := by
      simp [pass, hleft, List.getElem?_eq_getElem hpos, hsep]
    have hparts := h.parts_append
    rw [hdrop, hsep, segments_cons_sep] at hparts
    rw [hpass]
    exact ⟨⟨by simp only; omega, hparts⟩, le_rfl⟩
  · have hpass : pass text sep state
        = { pos := state.pos + state.segLen text sep,
            bytesLeft := state.bytesLeft - state.segLen text sep,
            parts := state.parts ++ [(text.drop state.pos).take (state.segLen text sep)] } := by
      simp [pass, hleft, List.getElem?_eq_getElem hpos, hsep]
    have hle := segLen_le h
    have hsegment := isSegment_takeWhile hsep (text.drop (state.pos + 1))
    have hsplit := segments_takeWhile hsep (text.drop (state.pos + 1))
    rw [← hdrop] at hsegment hsplit
    have hlen : 0 < state.segLen text sep := by
      rw [segLen_eq h]
      exact List.length_pos_iff.mpr hsegment.1
    have htake : (text.drop state.pos).take (state.segLen text sep)
        = (text.drop state.pos).takeWhile (· != sep) := by
      rw [segLen_eq h]
      exact (List.prefix_iff_eq_take.mp (List.takeWhile_prefix _)).symm
    have hrest : text.drop (state.pos + state.segLen text sep)
        = (text.drop state.pos).dropWhile (· != sep) := by
      rw [segLen_eq h, ← List.drop_drop, drop_length_takeWhile]
    rw [hpass]
    refine ⟨⟨by simp only; omega, ?_⟩, by simp only; omega⟩
    rw [htake, hrest, List.append_assoc, List.singleton_append, ← hsplit, h.parts_append]

theorem passes_spec (text : Bytes) (sep : UInt8) (passes : Nat) :
    Inv text sep ((pass text sep)^[passes] (start text))
      ∧ ((pass text sep)^[passes] (start text)).bytesLeft ≤ text.length - passes := by
  induction passes with
  | zero => exact ⟨start_inv text sep, le_rfl⟩
  | succ passes ih =>
      obtain ⟨hinv, hleft⟩ := pass_spec ih.1
      rw [Function.iterate_succ_apply']
      exact ⟨hinv, by omega⟩

theorem passes_done {passes : Nat} (h : text.length ≤ passes) :
    ((pass text sep)^[passes] (start text)).bytesLeft = 0
      ∧ ((pass text sep)^[passes] (start text)).parts = doSplit text sep := by
  obtain ⟨hinv, hleft⟩ := passes_spec text sep passes
  have hnone : ((pass text sep)^[passes] (start text)).bytesLeft = 0 := by omega
  have htoEnd := hinv.toEnd
  have hparts := hinv.parts_append
  rw [List.drop_eq_nil_of_le (by omega), segments_nil, List.append_nil] at hparts
  exact ⟨hnone, hparts.trans (doSplit_eq text sep).symm⟩

end SplitState

/-- A path with every run of slashes replaced by one, with one in front and none behind. -/
def canonical (vpath : Bytes) : Bytes := slash :: trimmed slash (squeezed slash vpath)

theorem toVpath_eq (parts : List Bytes) : toVpath parts = slash :: [slash].intercalate parts := by
  cases parts with
  | nil => rfl
  | cons part parts => rw [toVpath_cons, joined_eq_intercalate (by simp)]

theorem toVpath_split (vpath : Bytes) : toVpath (split vpath) = canonical vpath := by
  rw [toVpath_eq, split_eq, canonical, trimmed_squeezed]

theorem split_canonical (vpath : Bytes) : split (canonical vpath) = split vpath := by
  rw [← toVpath_split]
  refine split_toVpath fun part hpart => ?_
  rw [split_eq] at hpart
  exact isSegment_of_mem_segments hpart

/-- **Splitting and joining are inverse up to the slashes, and the count of `DoSplit` is the distance
to the end after every pass of its loop.** -/
theorem split_join (parts : List Bytes) (hparts : ∀ part ∈ parts, IsSegment slash part)
    (vpath text : Bytes) (splitCh : UInt8) (passes : Nat) :
    split (toVpath parts) = parts
      ∧ toVpath (split vpath) = canonical vpath
      ∧ split (canonical vpath) = split vpath
      ∧ ((SplitState.pass text splitCh)^[passes] (.start text)).pos
          + ((SplitState.pass text splitCh)^[passes] (.start text)).bytesLeft = text.length
      ∧ (text.length ≤ passes →
          ((SplitState.pass text splitCh)^[passes] (.start text)).bytesLeft = 0
            ∧ ((SplitState.pass text splitCh)^[passes] (.start text)).parts
              = doSplit text splitCh) :=
  ⟨split_toVpath hparts, toVpath_split vpath, split_canonical vpath,
    (SplitState.passes_spec text splitCh passes).1.toEnd, SplitState.passes_done⟩

example : canonical (bytes "pub//new/") = bytes "/pub/new" := by decide

theorem split_join_pub : split (toVpath [bytes "pub", bytes "new"]) = [bytes "pub", bytes "new"] :=
  (split_join [bytes "pub", bytes "new"] (by decide) [] [] slash 0).1

end Path

end Wfde
