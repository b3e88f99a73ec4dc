import Mathlib.Data.List.Basic
import Mathlib.Order.Basic
import Mathlib.Data.Nat.Basic

/-!
# A cursor that writes

A pointer into a buffer of which nothing is known. What is below the cursor is a text only if every
element of it has been written; a call that moves the cursor further than it has written leaves a gap.
-/

/-- `cell` is what has been written, and `none` where nothing has. -/
structure Cursor (α : Type*) where
  cell : Nat → Option α
  pos : Nat

namespace Cursor

variable {α : Type*}

def start : Cursor α := ⟨fun _ => none, 0⟩

/-- Writes the elements and moves `n` ahead, however many have been written. -/
def put (c : Cursor α) (xs : List α) (n : Nat) : Cursor α where
  cell i := if c.pos ≤ i ∧ i < c.pos + xs.length then xs[i - c.pos]? else c.cell i
  pos := c.pos + n

def memcpy (c : Cursor α) (xs : List α) : Cursor α := c.put xs xs.length

/-- Writes at most `limit` elements, the terminator included, and moves by the length of the text. -/
def snprintf (terminator : α) (limit : Nat) (c : Cursor α) (text : List α) : Cursor α :=
  c.put (text.take (limit - 1) ++ [terminator]) text.length

/-- What is below the cursor is the text, and all of it has been written. -/
structure Holds (c : Cursor α) (text : List α) : Prop where
  pos_eq : c.pos = text.length
  cell_eq : ∀ i < text.length, c.cell i = text[i]?

/-- Nothing below the first cursor is written again on the way to the second. -/
structure Extends (c c' : Cursor α) : Prop where
  pos_le : c.pos ≤ c'.pos
  cell_eq : ∀ i < c.pos, c'.cell i = c.cell i

/-- No more than a terminator is written behind the cursor. -/
def Tidy (c : Cursor α) : Prop := ∀ i, c.pos < i → c.cell i = none

/-- The cursor and all that has been written stay in front of the bound. -/
structure Within (c : Cursor α) (bound : Nat) : Prop where
  pos_le : c.pos ≤ bound
  cell_eq_none : ∀ i, bound ≤ i → c.cell i = none

/-- What the function does moves the cursor by no more than the width. -/
def Advances (value : Cursor α → Cursor α) (width : Nat) : Prop :=
  ∀ c, (value c).pos ≤ c.pos + width

/-- What is below the cursor in a memory: what has not been written keeps its value. -/
def onto (c : Cursor α) (memory : Nat → α) : List α :=
  (List.range c.pos).map fun i => (c.cell i).getD (memory i)

variable {c c' c'' : Cursor α} {text line xs : List α} {terminator : α} {limit n bound : Nat}

theorem holds_start : (start : Cursor α).Holds [] := ⟨rfl, by simp⟩

theorem Holds.unique (h : c.Holds text) (h' : c.Holds line) : text = line := by
  apply List.ext_getElem?
  intro i
  by_cases hi : i < text.length
  · rw [← h.cell_eq i hi, h'.cell_eq i (by rwa [← h'.pos_eq, h.pos_eq])]
  · have hi' : line.length ≤ i := by rw [← h'.pos_eq, h.pos_eq]; omega
    rw [List.getElem?_eq_none (by omega), List.getElem?_eq_none hi']

theorem cell_put_of_lt {i : Nat} (hi : i < c.pos) : (c.put xs n).cell i = c.cell i :=
  if_neg (by omega)

theorem cell_put_of_ge {i : Nat} (hi : c.pos ≤ i) (hi' : i < c.pos + xs.length) :
    (c.put xs n).cell i = xs[i - c.pos]? :=
  if_pos ⟨hi, hi'⟩

/-- The elements up to the new position have been written. -/
theorem Holds.put (h : c.Holds text) (xs : List α) (hn : n ≤ xs.length) :
    (c.put xs n).Holds (text ++ xs.take n) := by
  constructor
  · rw [List.length_append, List.length_take_of_le hn, ← h.pos_eq]
    rfl
  · intro i hi
    rw [List.length_append, List.length_take_of_le hn] at hi
    by_cases hlt : i < c.pos
    · have hlt' : i < text.length := by rwa [← h.pos_eq]
      rw [cell_put_of_lt hlt, h.cell_eq i hlt', List.getElem?_append_left hlt']
    · have hge : text.length ≤ i := by rw [← h.pos_eq]; omega
      have hpos := h.pos_eq
      rw [cell_put_of_ge (by omega) (by omega), List.getElem?_append_right hge, hpos,
        List.getElem?_take_of_lt (by omega)]

theorem Holds.memcpy (h : c.Holds text) (xs : List α) : (c.memcpy xs).Holds (text ++ xs) := by
  have hput := h.put xs (Nat.le_refl xs.length)
  rwa [List.take_length] at hput

theorem Holds.snprintf (h : c.Holds text) (hlimit : xs.length < limit) :
    (c.snprintf terminator limit xs).Holds (text ++ xs) := by
  have hwritten : xs.length ≤ (xs.take (limit - 1) ++ [terminator]).length := by
    rw [List.length_append, List.length_take]
    omega
  have hput := h.put (xs.take (limit - 1) ++ [terminator]) hwritten
  have htake : (xs.take (limit - 1) ++ [terminator]).take xs.length = xs := by
    rw [List.take_of_length_le (by omega : xs.length ≤ limit - 1), List.take_left]
  rwa [htake] at hput

theorem Holds.cell_last {x : α} (h : c.Holds (text ++ [x])) : c.cell (c.pos - 1) = some x := by
  have hpos : c.pos - 1 = text.length := by rw [h.pos_eq, List.length_append]; simp
  rw [hpos, h.cell_eq _ (by simp)]
  simp

theorem Extends.trans (h : c.Extends c') (h' : c'.Extends c'') : c.Extends c'' :=
  ⟨h.pos_le.trans h'.pos_le, fun i hi =>
    (h'.cell_eq i (hi.trans_le h.pos_le)).trans (h.cell_eq i hi)⟩

theorem extends_put (c : Cursor α) (xs : List α) (n : Nat) : c.Extends (c.put xs n) :=
  ⟨Nat.le_add_right _ _, fun _ hi => cell_put_of_lt hi⟩

/-- A text that does not fit is cut, and its terminator stays in the line. -/
theorem Holds.cut (h : c.Holds text) (hpos : 0 < limit) (hlimit : limit ≤ xs.length)
    (hextends : (c.snprintf terminator limit xs).Extends c') (hline : c'.Holds line) :
    ∃ rest, line = text ++ xs.take (limit - 1) ++ terminator :: rest := by
  have hwritten : (xs.take (limit - 1) ++ [terminator]).length = limit := by
    rw [List.length_append, List.length_take, List.length_singleton]
    omega
  have hcut := h.put (xs.take (limit - 1) ++ [terminator]) hwritten.ge
  rw [List.take_of_length_le hwritten.le] at hcut
  have hle : (c.put (xs.take (limit - 1) ++ [terminator]) limit).pos ≤ c'.pos :=
    (Nat.add_le_add_left hlimit c.pos).trans hextends.pos_le
  have hprefix : text ++ (xs.take (limit - 1) ++ [terminator]) <+: line := by
    rw [List.prefix_iff_getElem?]
    intro i hi
    have hlt : i < c.pos + limit := lt_of_lt_of_eq hi hcut.pos_eq.symm
    have hend : i < c'.pos := hlt.trans_le hle
    have hkept : c'.cell i = (c.snprintf terminator limit xs).cell i :=
      hextends.cell_eq i (hlt.trans_le (Nat.add_le_add_left hlimit c.pos))
    rw [← hline.cell_eq i (hline.pos_eq ▸ hend), hkept, ← List.getElem?_eq_getElem hi]
    exact hcut.cell_eq i hi
  obtain ⟨rest, hrest⟩ := hprefix
  exact ⟨rest, by rw [← hrest, List.append_assoc, List.append_assoc, List.append_assoc,
    List.singleton_append]⟩

section Tidy

@[simp]
theorem pos_memcpy (c : Cursor α) (xs : List α) : (c.memcpy xs).pos = c.pos + xs.length := rfl

@[simp]
theorem pos_snprintf (terminator : α) (limit : Nat) (c : Cursor α) (text : List α) :
    (c.snprintf terminator limit text).pos = c.pos + text.length := rfl

theorem tidy_start : (start : Cursor α).Tidy := fun _ _ => rfl

theorem Tidy.put (h : c.Tidy) (hn : xs.length ≤ n + 1) : (c.put xs n).Tidy := by
  intro i hi
  have hi' : c.pos + n < i := hi
  have hbehind : ¬ (c.pos ≤ i ∧ i < c.pos + xs.length) := by omega
  exact (if_neg hbehind).trans (h i (by omega))

theorem Tidy.memcpy (h : c.Tidy) (xs : List α) : (c.memcpy xs).Tidy := h.put (Nat.le_succ _)

theorem Tidy.snprintf (h : c.Tidy) (terminator : α) (limit : Nat) (text : List α) :
    (c.snprintf terminator limit text).Tidy := by
  refine h.put ?_
  rw [List.length_append, List.length_take, List.length_singleton]
  omega

/-- An element that is copied last covers the terminator in front of it. -/
theorem Tidy.within_memcpy (h : c.Tidy) (hxs : xs ≠ []) (hle : (c.memcpy xs).pos ≤ bound) :
    (c.memcpy xs).Within bound := by
  refine ⟨hle, fun i hi => ?_⟩
  have hlength := List.length_pos_iff.mpr hxs
  have hpos : c.pos + xs.length ≤ bound := hle
  have hbehind : ¬ (c.pos ≤ i ∧ i < c.pos + xs.length) := by omega
  exact (if_neg hbehind).trans (h i (by omega))

end Tidy

/-- A text that has been written is there, whatever the memory held. -/
theorem Holds.onto (h : c.Holds text) (memory : Nat → α) : c.onto memory = text := by
  apply List.ext_getElem?
  intro i
  rw [Cursor.onto, h.pos_eq, List.getElem?_map]
  by_cases hi : i < text.length
  · rw [List.getElem?_range hi, Option.map_some, h.cell_eq i hi, List.getElem?_eq_getElem hi]
    rfl
  · rw [List.getElem?_eq_none (by simpa using hi), List.getElem?_eq_none (by omega)]
    rfl

section Onto

variable {memory : Nat → α}

@[simp]
theorem onto_start (memory : Nat → α) : (start : Cursor α).onto memory = [] := rfl

theorem onto_put (c : Cursor α) (xs : List α) (n : Nat) :
    (c.put xs n).onto memory
      = c.onto memory ++ (List.range' c.pos n).map fun i => ((c.put xs n).cell i).getD (memory i) := by
  have hrange : List.range (c.pos + n) = List.range c.pos ++ List.range' c.pos n := by
    rw [List.range_eq_range', List.range_eq_range', ← List.range'_append_1, Nat.zero_add]
  have hkept : (List.range c.pos).map (fun i => ((c.put xs n).cell i).getD (memory i))
      = c.onto memory :=
    List.map_congr_left fun i hi => by rw [cell_put_of_lt (List.mem_range.mp hi)]
  rw [onto, show (c.put xs n).pos = c.pos + n from rfl, hrange, List.map_append, hkept]

theorem onto_put_of_le (c : Cursor α) (hn : n ≤ xs.length) :
    (c.put xs n).onto memory = c.onto memory ++ xs.take n := by
  rw [onto_put, List.append_cancel_left_eq]
  apply List.ext_getElem
  · simp [hn]
  · intro i hi _
    rw [List.length_map, List.length_range'] at hi
    rw [List.getElem_map, List.getElem_range', Nat.one_mul, cell_put_of_ge (by omega) (by omega),
      Nat.add_sub_cancel_left, List.getElem?_eq_getElem (by omega), Option.getD_some,
      List.getElem_take]

theorem onto_put_of_ge (h : c.Tidy) (hxs : xs ≠ []) (hn : xs.length ≤ n) :
    (c.put xs n).onto memory
      = c.onto memory ++ (xs ++ (List.range' (c.pos + xs.length) (n - xs.length)).map memory) := by
  have hlength := List.length_pos_iff.mpr hxs
  rw [onto_put, List.append_cancel_left_eq]
  apply List.ext_getElem
  · simp
    omega
  · intro i hi _
    rw [List.length_map, List.length_range'] at hi
    rw [List.getElem_map, List.getElem_range', Nat.one_mul]
    by_cases hnew : i < xs.length
    · rw [cell_put_of_ge (by omega) (by omega), Nat.add_sub_cancel_left,
        List.getElem?_eq_getElem hnew, Option.getD_some, List.getElem_append_left hnew]
    · have hbehind : (c.put xs n).cell (c.pos + i) = none :=
        (if_neg (by omega)).trans (h _ (by omega))
      rw [hbehind, Option.getD_none, List.getElem_append_right (by omega), List.getElem_map,
        List.getElem_range']
      congr 1
      omega

theorem onto_memcpy (c : Cursor α) (xs : List α) :
    (c.memcpy xs).onto memory = c.onto memory ++ xs := by
  rw [memcpy, onto_put_of_le c le_rfl, List.take_length]

theorem onto_snprintf (c : Cursor α) (hlimit : xs.length < limit) :
    (c.snprintf terminator limit xs).onto memory = c.onto memory ++ xs := by
  have hfits : xs.take (limit - 1) = xs := List.take_of_length_le (by omega)
  rw [snprintf, hfits, onto_put_of_le c (by simp), List.take_left]

/-- A text that does not fit is cut, and the memory is seen behind its terminator. -/
theorem onto_snprintf_cut (h : c.Tidy) (hpos : 0 < limit) (hlimit : limit ≤ xs.length) :
    (c.snprintf terminator limit xs).onto memory
      = c.onto memory ++ (xs.take (limit - 1) ++ [terminator]
        ++ (List.range' (c.pos + limit) (xs.length - limit)).map memory) := by
  have hlength : (xs.take (limit - 1) ++ [terminator]).length = limit := by
    rw [List.length_append, List.length_take, List.length_singleton]
    omega
  rw [snprintf, onto_put_of_ge h (by simp) (by omega), hlength]

theorem cell_memcpy_last (c : Cursor α) (xs : List α) (x : α) :
    (c.memcpy (xs ++ [x])).cell ((c.memcpy (xs ++ [x])).pos - 1) = some x := by
  have hpos : (c.memcpy (xs ++ [x])).pos - 1 = c.pos + xs.length := by
    rw [pos_memcpy, List.length_append, List.length_singleton]
    rfl
  rw [hpos, memcpy, cell_put_of_ge (by omega) (by simp), Nat.add_sub_cancel_left]
  simp

end Onto

theorem Advances.comp {f g : Cursor α → Cursor α} {width width' : Nat} (hf : Advances f width)
    (hg : Advances g width') : Advances (fun c => f (g c)) (width' + width) := fun c => by
  have hfirst := hg c
  have hsecond := hf (g c)
  dsimp only
  omega

theorem advances_memcpy {width : Nat} (h : xs.length ≤ width) :
    Advances (fun c : Cursor α => c.memcpy xs) width :=
  fun c => Nat.add_le_add_left h c.pos

end Cursor
