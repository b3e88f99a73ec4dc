import Mathlib.Data.List.Basic

/-!
# Batches

Items are written one behind the other to a buffer of limited size. An item is written if its
estimated size leaves the buffer short of full; the first one that is not begins the next batch.
-/

namespace Batches

variable {α β : Type*} (need : α → Nat) (line : α → List β) (limit : Nat)

/-- What is written behind `used` elements, and the items that are left. -/
def fill : Nat → List α → List β × List α
  | _, [] => ([], [])
  | used, item :: items =>
      if limit ≤ used + need item then ([], item :: items)
      else
        let (batch, left) := fill (used + (line item).length) items
        (line item ++ batch, left)

/-- The batches that items come in, of which the last one may be empty. -/
inductive Batched : List α → List (List β) → Prop where
  | last {items batch} (h : fill need line limit 0 items = (batch, [])) : Batched items [batch]
  | more {items batch left batches} (h : fill need line limit 0 items = (batch, left))
      (hleft : left ≠ []) (rest : Batched left batches) : Batched items (batch :: batches)

variable {need line limit}

theorem fill_of_le {used : Nat} {item : α} (items : List α) (h : limit ≤ used + need item) :
    fill need line limit used (item :: items) = ([], item :: items) := by
  rw [fill, if_pos h]

theorem fill_of_lt {used : Nat} {item : α} (items : List α) (h : used + need item < limit) :
    fill need line limit used (item :: items)
      = (line item ++ (fill need line limit (used + (line item).length) items).1,
        (fill need line limit (used + (line item).length) items).2) := by
  rw [fill, if_neg (Nat.not_le.mpr h)]

theorem fill_append {used : Nat} {items left : List α} {batch : List β}
    (h : fill need line limit used items = (batch, left)) :
    batch ++ left.flatMap line = items.flatMap line := by
  induction items generalizing used batch left with
  | nil =>
      obtain ⟨rfl, rfl⟩ := Prod.mk.inj h
      rfl
  | cons item items ih =>
      by_cases hfull : limit ≤ used + need item
      · rw [fill_of_le items hfull] at h
        obtain ⟨rfl, rfl⟩ := Prod.mk.inj h
        rfl
      · rw [fill_of_lt items (Nat.lt_of_not_le hfull)] at h
        obtain ⟨rfl, rfl⟩ := Prod.mk.inj h
        rw [List.append_assoc, ih rfl, List.flatMap_cons]

theorem fill_suffix {used : Nat} {items left : List α} {batch : List β}
    (h : fill need line limit used items = (batch, left)) : left <:+ items := by
  induction items generalizing used batch left with
  | nil =>
      obtain ⟨rfl, rfl⟩ := Prod.mk.inj h
      exact List.suffix_rfl
  | cons item items ih =>
      by_cases hfull : limit ≤ used + need item
      · rw [fill_of_le items hfull] at h
        obtain ⟨rfl, rfl⟩ := Prod.mk.inj h
        exact List.suffix_rfl
      · rw [fill_of_lt items (Nat.lt_of_not_le hfull)] at h
        obtain ⟨rfl, rfl⟩ := Prod.mk.inj h
        exact (ih rfl).trans (List.suffix_cons item items)

/-- A batch that starts with the buffer takes an item. -/
theorem length_lt_of_fill {items left : List α} {batch : List β}
    (hfits : ∀ item ∈ items, need item < limit) (hleft : left ≠ [])
    (h : fill need line limit 0 items = (batch, left)) : left.length < items.length := by
  cases items with
  | nil =>
      obtain ⟨-, rfl⟩ := Prod.mk.inj h
      exact absurd rfl hleft
  | cons item items =>
      rw [fill_of_lt items (by simpa using hfits item (by simp))] at h
      obtain ⟨-, rfl⟩ := Prod.mk.inj h
      exact Nat.lt_succ_of_le (fill_suffix rfl).length_le

theorem Batched.flatten {items : List α} {batches : List (List β)}
    (h : Batched need line limit items batches) : batches.flatten = items.flatMap line := by
  induction h with
  | last h => simpa using fill_append h
  | more h _ _ ih => rw [List.flatten_cons, ih, fill_append h]

/-- Items of which each fits into the empty buffer come in finitely many batches. -/
theorem exists_batched {items : List α} (hfits : ∀ item ∈ items, need item < limit) :
    ∃ batches, Batched need line limit items batches := by
  induction hlen : items.length using Nat.strongRecOn generalizing items with
  | ind len ih =>
      obtain ⟨batch, left, h⟩ : ∃ batch left, fill need line limit 0 items = (batch, left) :=
        ⟨_, _, rfl⟩
      by_cases hleft : left = []
      · subst hleft
        exact ⟨[batch], .last h⟩
      · have hlt := length_lt_of_fill hfits hleft h
        obtain ⟨batches, hrest⟩ := ih left.length (hlen ▸ hlt)
          (fun item hitem => hfits item ((fill_suffix h).subset hitem)) rfl
        exact ⟨batch :: batches, .more h hleft hrest⟩

end Batches
