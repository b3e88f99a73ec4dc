import Mathlib.Data.Fintype.Basic

/-!
# Masks

Masks of 32 bits, and the single bits they are made of.
-/

namespace Masks

def IsBit (bit : UInt32) : Prop := ∃ n : Fin 32, bit.toBitVec = BitVec.twoPow 32 n

instance (bit : UInt32) : Decidable (IsBit bit) := inferInstanceAs (Decidable (∃ _, _))

theorem and_or (mask a b : UInt32) : mask &&& (a ||| b) = mask &&& a ||| mask &&& b := by
  apply UInt32.toBitVec_inj.mp
  rw [UInt32.toBitVec_and, UInt32.toBitVec_or, UInt32.toBitVec_or, UInt32.toBitVec_and,
    UInt32.toBitVec_and]
  exact BitVec.and_or_distrib_left ..

theorem and_isBit {bit : UInt32} (h : IsBit bit) (mask : UInt32) :
    mask &&& bit = if mask &&& bit = 0 then 0 else bit := by
  split
  · assumption
  · rename_i hne
    obtain ⟨n, hn⟩ := h
    have hand : mask.toBitVec &&& bit.toBitVec
        = if mask.toBitVec.getLsbD n then BitVec.twoPow 32 n else 0#32 := by
      rw [hn, BitVec.and_twoPow]
    apply UInt32.toBitVec_inj.mp
    rw [UInt32.toBitVec_and, hand]
    split
    · exact hn.symm
    · rename_i hclear
      rw [if_neg hclear, ← UInt32.toBitVec_and] at hand
      exact absurd (UInt32.toBitVec_inj.mp hand) hne

/-- The bits of several masks. -/
def orAll (masks : List UInt32) : UInt32 := masks.foldr (· ||| ·) 0

@[simp]
theorem orAll_nil : orAll [] = 0 := rfl

@[simp]
theorem orAll_cons (mask : UInt32) (masks : List UInt32) :
    orAll (mask :: masks) = mask ||| orAll masks := rfl

theorem orAll_append (masks others : List UInt32) :
    orAll (masks ++ others) = orAll masks ||| orAll others := by
  induction masks with
  | nil => simp
  | cons mask masks ih => rw [List.cons_append, orAll_cons, ih, orAll_cons, UInt32.or_assoc]

/-- A mask has those bits of a union that it has one by one. -/
theorem and_orAll (mask : UInt32) {bits : List UInt32} (h : ∀ bit ∈ bits, IsBit bit) :
    mask &&& orAll bits = orAll (bits.filter fun bit => mask &&& bit != 0) := by
  induction bits with
  | nil => simp
  | cons bit bits ih =>
      have hbits := ih fun other hother => h other (List.mem_cons_of_mem _ hother)
      rw [orAll_cons, and_or, hbits, and_isBit (h bit List.mem_cons_self) mask, List.filter_cons]
      by_cases hbit : mask &&& bit = 0
      · simp [hbit]
      · simp [hbit]

end Masks
