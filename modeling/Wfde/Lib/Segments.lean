import Mathlib.Data.List.Basic
import Mathlib.Data.List.Destutter
import Mathlib.Data.List.DropRight
import Mathlib.Data.List.Infix

/-!
# Segments of a separated list

The segments of a list are its maximal parts without the separator, empty ones left out. `joined`
puts the separator in front of every segment; it is a right inverse of `segments`. A list squeezed
and trimmed is what is left of it when the segments are joined again.
-/

namespace Segments

variable {α : Type*} {sep : α}

/-- A non-empty list without the separator. -/
def IsSegment (sep : α) (segment : List α) : Prop := segment ≠ [] ∧ sep ∉ segment

def joined (sep : α) (parts : List (List α)) : List α := parts.flatMap (sep :: ·)

@[simp]
theorem joined_nil : joined sep [] = [] := rfl

@[simp]
theorem joined_cons (part : List α) (parts : List (List α)) :
    joined sep (part :: parts) = sep :: part ++ joined sep parts := by
  simp [joined]

@[simp]
theorem joined_append (front back : List (List α)) :
    joined sep (front ++ back) = joined sep front ++ joined sep back := by
  simp [joined]

theorem drop_length_takeWhile (p : α → Bool) (xs : List α) :
    xs.drop (xs.takeWhile p).length = xs.dropWhile p := by
  nth_rewrite 2 [← List.takeWhile_append_dropWhile (p := p) (l := xs)]
  exact List.drop_left

theorem joined_eq_intercalate {parts : List (List α)} (h : parts ≠ []) :
    joined sep parts = sep :: [sep].intercalate parts := by
  induction parts with
  | nil => exact absurd rfl h
  | cons part parts ih =>
      cases parts with
      | nil => simp [List.intercalate]
      | cons next others => rw [joined_cons, ih (by simp)]; simp [List.intercalate]

theorem intercalate_cons_cons (x : α) (first : List α) (others : List (List α)) :
    [sep].intercalate ((x :: first) :: others) = x :: [sep].intercalate (first :: others) := by
  cases others <;> simp [List.intercalate]

variable [DecidableEq α]

instance (sep : α) (segment : List α) : Decidable (IsSegment sep segment) :=
  inferInstanceAs (Decidable (_ ∧ _))

def segments (sep : α) (xs : List α) : List (List α) :=
  (xs.splitOn sep).filter fun segment => !segment.isEmpty

@[simp]
theorem segments_nil : segments sep [] = [] := rfl

theorem segments_append_sep (xs ys : List α) :
    segments sep (xs ++ sep :: ys) = segments sep xs ++ segments sep ys := by
  simp [segments, List.splitOn_append_cons_self]

@[simp]
theorem segments_cons_sep (xs : List α) : segments sep (sep :: xs) = segments sep xs := by
  simpa using segments_append_sep [] xs

theorem segments_intercalate (parts : List (List α)) :
    segments sep ([sep].intercalate parts) = parts.flatMap (segments sep) := by
  induction parts with
  | nil => rfl
  | cons part parts ih =>
      cases parts with
      | nil => simp [List.intercalate]
      | cons next others =>
          have hcons : [sep].intercalate (part :: next :: others)
              = part ++ sep :: [sep].intercalate (next :: others) := by
            simp [List.intercalate]
          rw [hcons, segments_append_sep, ih]
          exact List.flatMap_cons.symm

theorem segments_of_isSegment {segment : List α} (h : IsSegment sep segment) :
    segments sep segment = [segment] := by
  simp [segments, List.splitOn_eq_singleton h.2, h.1]

theorem not_mem_of_mem_splitOn {segment : List α} : ∀ {xs : List α},
    segment ∈ xs.splitOn sep → sep ∉ segment := by
  intro xs
  induction xs generalizing segment with
  | nil =>
      intro h
      obtain rfl : segment = [] := by simpa using h
      simp
  | cons x xs ih =>
      intro h
      rw [List.splitOn_cons_eq_if_modifyHead] at h
      by_cases hx : x = sep
      · rcases List.mem_cons.mp (by simpa [hx] using h) with rfl | h
        · simp
        · exact ih h
      · rw [if_neg (by simpa using hx)] at h
        cases hsplit : xs.splitOn sep with
        | nil => simp [hsplit] at h
        | cons first others =>
            rw [hsplit, List.modifyHead_cons] at h
            rcases List.mem_cons.mp h with rfl | h
            · have hfirst : sep ∉ first := ih (by simp [hsplit])
              simpa [Ne.symm hx] using hfirst
            · exact ih (by simp [hsplit, h])

theorem isSegment_of_mem_segments {segment xs : List α} (h : segment ∈ segments sep xs) :
    IsSegment sep segment := by
  have hmem := List.mem_filter.mp h
  exact ⟨by simpa using hmem.2, not_mem_of_mem_splitOn hmem.1⟩

theorem isInfix_of_mem_splitOn {segment : List α} : ∀ {xs : List α},
    segment ∈ xs.splitOn sep → segment <:+: xs := by
  intro xs
  induction xs generalizing segment with
  | nil =>
      intro h
      obtain rfl : segment = [] := by simpa using h
      exact List.infix_rfl
  | cons x xs ih =>
      intro h
      rw [List.splitOn_cons_eq_if_modifyHead] at h
      by_cases hx : x = sep
      · rcases List.mem_cons.mp (by simpa [hx] using h) with rfl | h
        · exact List.nil_infix
        · exact (ih h).trans (List.infix_cons List.infix_rfl)
      · rw [if_neg (by simpa using hx)] at h
        cases hsplit : xs.splitOn sep with
        | nil => simp [hsplit] at h
        | cons first others =>
            rw [hsplit, List.modifyHead_cons] at h
            rcases List.mem_cons.mp h with rfl | h
            · have hjoin : [sep].intercalate (first :: others) = xs := by
                rw [← hsplit, List.intercalate_splitOn]
              have hfirst : first <+: xs := by
                rw [← hjoin]
                cases others with
                | nil => simp [List.intercalate]
                | cons next others => simp [List.intercalate]
              exact (List.cons_prefix_cons.mpr ⟨rfl, hfirst⟩).isInfix
            · exact (ih (by simp [hsplit, h])).trans (List.infix_cons List.infix_rfl)

theorem isInfix_of_mem_segments {segment xs : List α} (h : segment ∈ segments sep xs) :
    segment <:+: xs :=
  isInfix_of_mem_splitOn (List.mem_filter.mp h).1

section Field

theorem takeWhile_append_sep {field : List α} (h : sep ∉ field) (rest : List α) :
    (field ++ sep :: rest).takeWhile (· != sep) = field := by
  have hfield : ∀ c ∈ field, (c != sep) = true := fun c hc => by
    simpa using ne_of_mem_of_not_mem hc h
  rw [List.takeWhile_append_of_pos hfield, List.takeWhile_cons_of_neg (by simp), List.append_nil]

theorem dropWhile_append_sep {field : List α} (h : sep ∉ field) (rest : List α) :
    (field ++ sep :: rest).dropWhile (· != sep) = sep :: rest := by
  have hfield : ∀ c ∈ field, (c != sep) = true := fun c hc => by
    simpa using ne_of_mem_of_not_mem hc h
  rw [List.dropWhile_append_of_pos hfield, List.dropWhile_cons_of_neg (by simp)]

theorem eq_of_dropWhile_cons {xs rest : List α} {x : α}
    (h : xs.dropWhile (· != sep) = x :: rest) : xs = xs.takeWhile (· != sep) ++ sep :: rest := by
  have hx : x = sep := by
    have hhead := List.head?_dropWhile_not (· != sep) xs
    rw [h] at hhead
    simpa using hhead
  rw [← hx, ← h, hx, List.takeWhile_append_dropWhile]

end Field

theorem segments_segment_sep {segment : List α} (h : IsSegment sep segment) (rest : List α) :
    segments sep (segment ++ sep :: rest) = segment :: segments sep rest := by
  rw [segments_append_sep, segments_of_isSegment h, List.singleton_append]

theorem isSegment_takeWhile {x : α} (hx : x ≠ sep) (xs : List α) :
    IsSegment sep ((x :: xs).takeWhile (· != sep)) :=
  ⟨by simp [hx], fun hmem => by simpa using List.mem_takeWhile_imp hmem⟩

/-- The first segment of a list that does not start with the separator. -/
theorem segments_takeWhile {x : α} (hx : x ≠ sep) (xs : List α) :
    segments sep (x :: xs) = (x :: xs).takeWhile (· != sep)
      :: segments sep ((x :: xs).dropWhile (· != sep)) := by
  have hsegment := isSegment_takeWhile hx xs
  have hwhole := List.takeWhile_append_dropWhile (p := (· != sep)) (l := x :: xs)
  cases htail : (x :: xs).dropWhile (· != sep) with
  | nil =>
      rw [htail, List.append_nil] at hwhole
      rw [hwhole] at hsegment ⊢
      rw [segments_of_isSegment hsegment, segments_nil]
  | cons y more =>
      have hy : y = sep := by
        have hhead := List.head?_dropWhile_not (· != sep) (x :: xs)
        rw [htail] at hhead
        simpa using hhead
      rw [htail, hy] at hwhole
      rw [hy, segments_cons_sep, ← segments_segment_sep hsegment, hwhole]

theorem segments_joined {parts : List (List α)} (h : ∀ part ∈ parts, IsSegment sep part) :
    segments sep (joined sep parts) = parts := by
  induction parts with
  | nil => rfl
  | cons part parts ih =>
      have hpart := h part (by simp)
      have hparts := ih fun other hother => h other (by simp [hother])
      cases parts with
      | nil => simp [segments_of_isSegment hpart]
      | cons next others =>
          rw [joined_cons, List.cons_append, segments_cons_sep, joined_cons, List.cons_append,
            segments_segment_sep hpart, ← segments_cons_sep, ← List.cons_append, ← joined_cons, hparts]

theorem splitOn_append_joined {part : List α} {parts : List (List α)} (hpart : IsSegment sep part)
    (h : ∀ next ∈ parts, IsSegment sep next) :
    (part ++ joined sep parts).splitOn sep = part :: parts := by
  induction parts generalizing part with
  | nil =>
      rw [joined_nil, List.append_nil]
      exact List.splitOn_eq_singleton hpart.2
  | cons next parts ih =>
      rw [joined_cons, List.cons_append, List.splitOn_append_cons_self,
        List.splitOn_eq_singleton hpart.2, ih (h next List.mem_cons_self) fun other hother =>
          h other (List.mem_cons_of_mem _ hother), List.singleton_append]

section Squeezed

/-- Every run of separators replaced by one. -/
def squeezed (sep : α) (xs : List α) : List α := xs.destutter fun x y => ¬ (x = sep ∧ y = sep)

/-- No separator in front and none behind. -/
def trimmed (sep : α) (xs : List α) : List α := (xs.rdropWhile (· == sep)).dropWhile (· == sep)

theorem rdropWhile_cons_of_ne {x : α} (h : x ≠ sep) (xs : List α) :
    (x :: xs).rdropWhile (· == sep) = x :: xs.rdropWhile (· == sep) := by
  induction xs using List.reverseRecOn with
  | nil => simp [List.rdropWhile, h]
  | append_singleton xs y ih =>
      rw [← List.cons_append, List.rdropWhile_concat, List.rdropWhile_concat, ih]
      split <;> rfl

theorem rdropWhile_cons_sep {xs : List α} (h : xs.rdropWhile (· == sep) ≠ []) :
    (sep :: xs).rdropWhile (· == sep) = sep :: xs.rdropWhile (· == sep) := by
  induction xs using List.reverseRecOn with
  | nil => exact absurd rfl h
  | append_singleton xs y ih =>
      rw [List.rdropWhile_concat] at h
      rw [← List.cons_append, List.rdropWhile_concat, List.rdropWhile_concat]
      split
      · rename_i hy
        exact ih (by rwa [if_pos hy] at h)
      · rfl

/-- A character that is no separator starts a segment, and one more in front of it joins the same
segment. -/
theorem segments_cons_of_ne {y : α} (hy : y ≠ sep) (xs : List α) :
    ∃ first others, segments sep (y :: xs) = (y :: first) :: others
      ∧ ∀ x, x ≠ sep → segments sep (x :: y :: xs) = (x :: y :: first) :: others := by
  obtain ⟨first, others, hsplit⟩ := List.exists_cons_of_ne_nil (List.splitOn_ne_nil sep xs)
  refine ⟨first, others.filter fun segment => !segment.isEmpty, ?_, fun x hx => ?_⟩
  · simp [segments, List.splitOn_cons_eq_if_modifyHead, hsplit, hy]
  · simp [segments, List.splitOn_cons_eq_if_modifyHead, hsplit, hy, hx]

theorem rdropWhile_destutter' (x : α) (xs : List α) :
    (xs.destutter' (fun x y => ¬ (x = sep ∧ y = sep)) x).rdropWhile (· == sep)
      = (if x = sep ∧ segments sep xs ≠ [] then [sep] else [])
        ++ [sep].intercalate (segments sep (x :: xs)) := by
  induction xs generalizing x with
  | nil =>
      by_cases hx : x = sep
      · simp [hx, List.rdropWhile]
      · simp [hx, List.rdropWhile, segments_of_isSegment ⟨List.cons_ne_nil x [], by simpa using Ne.symm hx⟩]
  | cons y xs ih =>
      by_cases hx : x = sep
      · subst hx
        by_cases hy : y = x
        · -- The second separator of a run is dropped.
          subst hy
          rw [List.destutter'_cons_neg _ (by simp), ih, segments_cons_sep, segments_cons_sep,
            segments_cons_sep]
        · obtain ⟨first, others, hsegments, -⟩ := segments_cons_of_ne hy xs
          have hrest := ih y
          rw [if_neg (fun h => hy h.1), List.nil_append, hsegments] at hrest
          rw [List.destutter'_cons_pos _ (by simp [hy]), rdropWhile_cons_sep, hrest,
            segments_cons_sep, hsegments]
          · simp
          · rw [hrest, intercalate_cons_cons]
            simp
      · have hfront : (if x = sep ∧ segments sep (y :: xs) ≠ [] then [sep] else []) = [] :=
          if_neg fun h => hx h.1
        rw [List.destutter'_cons_pos _ (by simp [hx]), rdropWhile_cons_of_ne hx, ih, hfront,
          List.nil_append]
        by_cases hy : y = sep
        · subst hy
          have hsegment : IsSegment y [x] := ⟨by simp, by simpa using Ne.symm hx⟩
          rw [segments_cons_sep, show x :: y :: xs = [x] ++ y :: xs from rfl,
            segments_segment_sep hsegment]
          cases segments y xs <;> simp [List.intercalate]
        · obtain ⟨first, others, hsegments, hjoined⟩ := segments_cons_of_ne hy xs
          rw [if_neg (fun h => hy h.1), List.nil_append, hsegments, hjoined x hx,
            intercalate_cons_cons x]

/-- **Squeezed and trimmed, a list is its segments with single separators between them.** -/
theorem trimmed_squeezed (xs : List α) :
    trimmed sep (squeezed sep xs) = [sep].intercalate (segments sep xs) := by
  cases xs with
  | nil => rfl
  | cons x xs =>
      rw [trimmed, squeezed, List.destutter_cons', rdropWhile_destutter']
      have hfront : ([sep].intercalate (segments sep (x :: xs))).dropWhile (· == sep)
          = [sep].intercalate (segments sep (x :: xs)) := by
        cases hsegments : segments sep (x :: xs) with
        | nil => rfl
        | cons segment others =>
            have hsegment := isSegment_of_mem_segments (hsegments ▸ List.mem_cons_self)
            obtain ⟨y, first, rfl⟩ := List.exists_cons_of_ne_nil hsegment.1
            have hy : y ≠ sep := fun h => hsegment.2 (by simp [h])
            rw [intercalate_cons_cons, List.dropWhile_cons_of_neg (by simpa using hy)]
      split
      · simpa using hfront
      · simpa using hfront

end Squeezed

end Segments
