import Mathlib.Data.List.Infix
import Mathlib.Data.List.Sort

/-!
# Prefixes in an ordered list

In a list that is ordered lexicographically by a key, the keys that are prefixes of one word come
in the order of their lengths, so that the last of them is the longest.
-/

namespace PrefixSearch

section Lexicographic

variable {κ : Type*} [LT κ] [Std.Irrefl (α := κ) (· < ·)]

theorem lt_append_of_ne_nil (front : List κ) {rest : List κ} (hrest : rest ≠ []) :
    front < front ++ rest := by
  induction front with
  | nil =>
      cases rest with
      | nil => exact absurd rfl hrest
      | cons x rest => exact List.nil_lt_cons x rest
  | cons x front ih => exact List.cons_lt_cons_self.mpr ih

theorem length_le_of_le {a b word : List κ} (ha : a <+: word) (hb : b <+: word) (hab : a ≤ b) :
    a.length ≤ b.length := by
  by_contra hlt
  obtain ⟨rest, rfl⟩ := List.prefix_of_prefix_length_le hb ha (Nat.le_of_not_le hlt)
  have hrest : rest ≠ [] := by
    rintro rfl
    simp at hlt
  exact hab (lt_append_of_ne_nil b hrest)

end Lexicographic

section Last

variable {α : Type*} {p : α → Bool} {r : α → α → Prop}

theorem mem_of_getLast?_filter {xs : List α} {last : α} (h : (xs.filter p).getLast? = some last) :
    last ∈ xs ∧ p last = true :=
  List.mem_filter.mp (List.mem_of_getLast? h)

theorem eq_or_rel_of_getLast?_filter {xs : List α} (hxs : xs.Pairwise r) {last : α}
    (h : (xs.filter p).getLast? = some last) {x : α} (hx : x ∈ xs) (hp : p x = true) :
    x = last ∨ r x last := by
  obtain ⟨front, hfront⟩ := List.getLast?_eq_some_iff.mp h
  have hpairwise : (front ++ [last]).Pairwise r := hfront ▸ hxs.filter p
  have hmem : x ∈ front ++ [last] := hfront ▸ List.mem_filter.mpr ⟨hx, hp⟩
  rcases List.mem_append.mp hmem with hx | hx
  · exact .inr ((List.pairwise_append.mp hpairwise).2.2 x hx last (by simp))
  · exact .inl (List.mem_singleton.mp hx)

theorem getLast?_filter_eq_none_iff {xs : List α} :
    (xs.filter p).getLast? = none ↔ ∀ x ∈ xs, p x = false := by
  simp

end Last

end PrefixSearch
