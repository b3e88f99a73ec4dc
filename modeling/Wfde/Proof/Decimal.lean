import Wfde.Ftp.Commands
import Wfde.Ftp.ListFormats

/-!
# Decimal numbers

What `decimal` and the formats of numbers print and `ofDigits` reads.
-/

namespace Wfde

def digit (d : Nat) : UInt8 := UInt8.ofNat (48 + d)

theorem toNat_digit {d : Nat} (h : d < 10) : (digit d).toNat = 48 + d := by
  rw [digit, UInt8.toNat_ofNat']
  omega

theorem isDigit_digit {d : Nat} (h : d < 10) : isDigit (digit d) = true := by
  have hnat := toNat_digit h
  simp only [isDigit, Bool.and_eq_true, decide_eq_true_eq, UInt8.le_iff_toNat_le, hnat]
  change 48 ≤ 48 + d ∧ 48 + d ≤ 57
  omega

theorem decimal_eq_map (n : Nat) :
    decimal n = (Nat.toDigits 10 n).map fun c => UInt8.ofNat c.toNat := by
  rw [decimal, bytes, Nat.toString_eq_ofList_toDigits, String.toList_ofList]

theorem decimal_of_lt {n : Nat} (h : n < 10) : decimal n = [digit n] := by
  rw [decimal_eq_map, Nat.toDigits_of_lt_base h, List.map_singleton,
    Nat.toNat_digitChar_of_lt_ten h, digit]

theorem decimal_of_le {n : Nat} (h : 10 ≤ n) : decimal n = decimal (n / 10) ++ [digit (n % 10)] := by
  rw [decimal_eq_map, decimal_eq_map, Nat.toDigits_of_base_le (by decide) h, List.map_append,
    List.map_singleton, Nat.toNat_digitChar_of_lt_ten (Nat.mod_lt n (by decide)), digit]

theorem decimal_ne_nil (n : Nat) : decimal n ≠ [] := by
  rw [decimal_eq_map]
  simp

theorem length_decimal_le {n k : Nat} (hk : 0 < k) : (decimal n).length ≤ k ↔ n < 10 ^ k := by
  rw [decimal_eq_map, List.length_map]
  exact Nat.length_toDigits_le_iff (by decide) hk

theorem ofDigits_append (front : Bytes) {d : Nat} (h : d < 10) :
    ofDigits (front ++ [digit d]) = ofDigits front * 10 + d := by
  rw [ofDigits, List.foldl_append, List.foldl_cons, List.foldl_nil, toNat_digit h,
    Nat.add_sub_cancel_left]
  rfl

theorem ofDigits_decimal (n : Nat) : ofDigits (decimal n) = n := by
  induction n using Nat.strong_induction_on with
  | _ n ih =>
      by_cases hlt : n < 10
      · rw [decimal_of_lt hlt, ← List.nil_append [digit n], ofDigits_append [] hlt]
        exact Nat.zero_add n
      · rw [decimal_of_le (by omega), ofDigits_append _ (Nat.mod_lt n (by decide)),
          ih (n / 10) (by omega)]
        omega

theorem isDigit_of_mem_decimal {n : Nat} {c : UInt8} (h : c ∈ decimal n) : isDigit c = true := by
  induction n using Nat.strong_induction_on with
  | _ n ih =>
      by_cases hlt : n < 10
      · rw [decimal_of_lt hlt, List.mem_singleton] at h
        rw [h, isDigit_digit hlt]
      · rw [decimal_of_le (by omega), List.mem_append, List.mem_singleton] at h
        rcases h with h | rfl
        · exact ih (n / 10) (by omega) h
        · exact isDigit_digit (Nat.mod_lt n (by decide))

theorem headD_decimal {n : Nat} (h : 0 < n) : (decimal n).headD 0 ≠ 48 := by
  induction n using Nat.strong_induction_on with
  | _ n ih =>
      by_cases hlt : n < 10
      · rw [decimal_of_lt hlt, List.headD_cons]
        intro hzero
        have hnat := congrArg UInt8.toNat hzero
        rw [toNat_digit hlt] at hnat
        change 48 + n = 48 at hnat
        omega
      · obtain ⟨c, others, hcons⟩ := List.exists_cons_of_ne_nil (decimal_ne_nil (n / 10))
        have hhead := ih (n / 10) (by omega) (by omega)
        rw [decimal_of_le (by omega), hcons, List.cons_append, List.headD_cons]
        rwa [hcons, List.headD_cons] at hhead

theorem longLong_eq {n : Nat} (h : n < 2 ^ 63) : longLong n = decimal n := by
  rw [longLong, if_pos h, signed, if_pos (Int.natCast_nonneg n), Int.toNat_natCast]

theorem ofDigits_replicate (k : Nat) (text : Bytes) :
    ofDigits (List.replicate k 48 ++ text) = ofDigits text := by
  induction k with
  | zero => rfl
  | succ k ih => rw [List.replicate_succ, List.cons_append, ← ih, ofDigits, List.foldl_cons]; rfl

theorem twoDigits_ne_nil (n : Nat) : twoDigits n ≠ [] := by
  simp [twoDigits, padLeft, decimal_ne_nil]

theorem isDigit_of_mem_twoDigits {n : Nat} {c : UInt8} (h : c ∈ twoDigits n) : isDigit c = true := by
  rw [twoDigits, padLeft, List.mem_append] at h
  rcases h with h | h
  · rw [(List.mem_replicate.mp h).2]
    rfl
  · exact isDigit_of_mem_decimal h

end Wfde
