import Mathlib.Data.List.Basic

/-!
# Lines

A text is cut at a separator. What stands behind the separators decides how the lines start, all but
the first one. Where a mark follows every separator every line but the first one is marked, and where
the text is cut off the last line may have lost its mark.
-/

namespace Lines

variable {α : Type*} {sep mark x : α} {xs ys : List α}

/-- A mark follows every separator. -/
def Marked (sep mark : α) (xs : List α) : Prop :=
  ∀ front back, xs = front ++ sep :: back → [mark] <+: back

theorem marked_cons : Marked sep mark (x :: xs) ↔ (x = sep → [mark] <+: xs) ∧ Marked sep mark xs := by
  constructor
  · intro h
    refine ⟨?_, fun front back hxs => h (x :: front) back (by rw [hxs, List.cons_append])⟩
    rintro rfl
    exact h [] xs rfl
  · rintro ⟨hhead, htail⟩ front back hxs
    rcases List.cons_eq_append_iff.mp hxs with ⟨-, hback⟩ | ⟨rest, -, hrest⟩
    · obtain ⟨rfl, rfl⟩ := List.cons.inj hback
      exact hhead rfl
    · exact htail rest back hrest

theorem marked_of_not_mem (h : sep ∉ xs) : Marked sep mark xs := by
  rintro front back rfl
  exact absurd (by simp) h

/-- Where the text is cut off there may be a separator without its mark. -/
theorem Marked.of_prefix (h : Marked sep mark ys) (hfront : xs <+: ys) {front back : List α}
    (hxs : xs = front ++ sep :: back) : back = [] ∨ [mark] <+: back := by
  obtain ⟨rest, rfl⟩ := hfront
  have hmark : [mark] <+: back ++ rest := by
    refine h front (back ++ rest) ?_
    rw [hxs, List.append_assoc, List.cons_append]
  cases back with
  | nil => exact .inl rfl
  | cons c back =>
      obtain ⟨rfl, -⟩ := List.cons_prefix_cons.mp hmark
      exact .inr (List.prefix_append [mark] back)

variable [DecidableEq α]

theorem marked_indent (hne : mark ≠ sep) (xs : List α) :
    Marked sep mark (xs.flatMap fun x => if x = sep then [x, mark] else [x]) := by
  induction xs with
  | nil => exact marked_of_not_mem (by simp)
  | cons x xs ih =>
      rw [List.flatMap_cons]
      by_cases hx : x = sep
      · rw [if_pos hx, List.cons_append, List.singleton_append, marked_cons, marked_cons]
        exact ⟨fun _ => List.prefix_append [mark] _, fun h => absurd h hne, ih⟩
      · rw [if_neg hx, List.singleton_append, marked_cons]
        exact ⟨fun h => absurd h hx, ih⟩

theorem splitOn_eq_cons (sep : α) (xs : List α) :
    xs.splitOn sep = xs.takeWhile (· != sep) :: (xs.splitOn sep).tail := by
  induction xs with
  | nil => rfl
  | cons x xs ih =>
      rw [List.splitOn_cons_eq_if_modifyHead]
      by_cases hx : x = sep
      · simp [hx]
      · rw [if_neg (by simpa using hx), ih, List.modifyHead_cons,
          List.takeWhile_cons_of_pos (by simpa using hx), List.tail_cons]

/-- A line but the first one is what stands behind a separator, up to the next one. -/
theorem mem_tail_splitOn {line : List α} :
    line ∈ (xs.splitOn sep).tail
      ↔ ∃ front back, xs = front ++ sep :: back ∧ line = back.takeWhile (· != sep) := by
  induction xs with
  | nil => simp
  | cons x xs ih =>
      have hcons : (∃ front back, x :: xs = front ++ sep :: back ∧ line = back.takeWhile (· != sep))
          ↔ x = sep ∧ line = xs.takeWhile (· != sep)
            ∨ ∃ front back, xs = front ++ sep :: back ∧ line = back.takeWhile (· != sep) := by
        constructor
        · rintro ⟨front, back, hxs, hline⟩
          rcases List.cons_eq_append_iff.mp hxs with ⟨-, hback⟩ | ⟨rest, -, hrest⟩
          · obtain ⟨rfl, rfl⟩ := List.cons.inj hback
            exact .inl ⟨rfl, hline⟩
          · exact .inr ⟨rest, back, hrest, hline⟩
        · rintro (⟨rfl, hline⟩ | ⟨front, back, rfl, hline⟩)
          · exact ⟨[], xs, rfl, hline⟩
          · exact ⟨x :: front, back, rfl, hline⟩
      rw [hcons, ← ih, List.splitOn_cons_eq_if_modifyHead]
      by_cases hx : x = sep
      · rw [if_pos (by simpa using hx), List.tail_cons, splitOn_eq_cons sep xs, List.mem_cons]
        simp [hx]
      · rw [if_neg (by simpa using hx), splitOn_eq_cons sep xs]
        simp [hx]

theorem tail_splitOn_append (h : sep ∉ xs) (ys : List α) :
    ((xs ++ ys).splitOn sep).tail = (ys.splitOn sep).tail := by
  induction xs with
  | nil => rfl
  | cons x xs ih =>
      have hx : x ≠ sep := fun heq => h (heq ▸ List.mem_cons_self)
      have hxs : sep ∉ xs := fun hmem => h (List.mem_cons_of_mem x hmem)
      rw [List.cons_append, List.splitOn_cons_eq_if_modifyHead, if_neg (by simpa using hx), ← ih hxs,
        splitOn_eq_cons sep (xs ++ ys)]
      rfl

section Terminated

/-- The lines that have come to their end. -/
def terminated (sep : α) (xs : List α) : List (List α) := (xs.splitOn sep).dropLast

theorem splitOn_cons_sep (sep : α) (xs : List α) : (sep :: xs).splitOn sep = [] :: xs.splitOn sep := by
  rw [List.splitOn_cons_eq_if_modifyHead, if_pos (by simp)]

theorem splitOn_cons_of_ne (h : x ≠ sep) (xs : List α) :
    (x :: xs).splitOn sep = (x :: xs.takeWhile (· != sep)) :: (xs.splitOn sep).tail := by
  rw [List.splitOn_cons_eq_if_modifyHead, if_neg (by simpa using h), splitOn_eq_cons sep xs,
    List.modifyHead_cons, List.tail_cons]

theorem terminated_cons_sep (sep : α) (xs : List α) :
    terminated sep (sep :: xs) = [] :: terminated sep xs := by
  rw [terminated, splitOn_cons_sep, terminated, splitOn_eq_cons sep xs]
  rfl

theorem terminated_cons_of_ne (h : x ≠ sep) (xs : List α) :
    terminated sep (x :: xs) = (terminated sep xs).modifyHead (x :: ·) := by
  rw [terminated, splitOn_cons_of_ne h, terminated, splitOn_eq_cons sep xs, List.tail_cons]
  cases (xs.splitOn sep).tail with
  | nil => rfl
  | cons line lines => rfl

theorem terminated_append (h : sep ∉ xs) (ys : List α) :
    terminated sep (xs ++ sep :: ys) = xs :: terminated sep ys := by
  induction xs with
  | nil => exact terminated_cons_sep sep ys
  | cons x xs ih =>
      have hx : x ≠ sep := fun heq => h (heq ▸ List.mem_cons_self)
      have hxs : sep ∉ xs := fun hmem => h (List.mem_cons_of_mem x hmem)
      rw [List.cons_append, terminated_cons_of_ne hx, ih hxs, List.modifyHead_cons]

/-- **Lines come back** one by one. -/
theorem terminated_flatMap {ι : Type*} {text : ι → List α} {items : List ι}
    (h : ∀ item ∈ items, sep ∉ text item) :
    terminated sep (items.flatMap fun item => text item ++ [sep]) = items.map text := by
  induction items with
  | nil => rfl
  | cons item items ih =>
      rw [List.flatMap_cons, List.append_assoc, List.singleton_append,
        terminated_append (h item List.mem_cons_self),
        ih fun other hother => h other (List.mem_cons_of_mem item hother), List.map_cons]

/-- Where a text is cut off the lines that have come to their end stay as they are. -/
theorem terminated_prefix (h : xs <+: ys) : terminated sep xs <+: terminated sep ys := by
  induction xs generalizing ys with
  | nil => exact List.nil_prefix
  | cons x xs ih =>
      obtain ⟨rest, rfl⟩ := h
      have hlines := ih (List.prefix_append xs rest)
      rw [List.cons_append]
      by_cases hx : x = sep
      · rw [hx, terminated_cons_sep, terminated_cons_sep]
        exact List.cons_prefix_cons.mpr ⟨rfl, hlines⟩
      · rw [terminated_cons_of_ne hx, terminated_cons_of_ne hx]
        obtain ⟨more, hmore⟩ := hlines
        rw [← hmore]
        cases terminated sep xs with
        | nil => exact List.nil_prefix
        | cons line lines => exact ⟨more, rfl⟩

end Terminated

end Lines
