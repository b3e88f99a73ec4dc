import Wfde.Lib.Masks
import Wfde.PermissionNames
import Wfde.Proof.Normalize

/-!
# Names and bits

Text is read field by field, and every field must be a name. What is printed for a single bit is its
name; for more bits the first two names run into each other, because the separator comes behind a
name and is left out behind the first one.
-/

namespace Wfde

open Masks Segments

/-- The names of the bits of a mask, with the bits. -/
def namedIn (perms : UInt32) : List (Bytes × PermissionBits) :=
  permNames.filter fun p => perms &&& p.2.bit != 0

/-- The bits that have a name. -/
def namedBits : UInt32 := Path.toPermBits (permNames.map Prod.snd)

theorem isBit_bit (p : PermissionBits) : IsBit p.bit := by
  cases p <;> decide

theorem toPermBits_eq_orAll (list : List PermissionBits) :
    Path.toPermBits list = orAll (list.map PermissionBits.bit) := by
  suffices h : ∀ rval, list.foldl (fun rval p => rval ||| p.bit) rval
      = rval ||| orAll (list.map PermissionBits.bit) from (h 0).trans UInt32.zero_or
  induction list with
  | nil => exact fun rval => UInt32.or_zero.symm
  | cons p list ih =>
      intro rval
      rw [List.foldl_cons, ih, List.map_cons, orAll_cons, UInt32.or_assoc]

theorem and_namedBits (perms : UInt32) :
    perms &&& namedBits = orAll ((namedIn perms).map fun p => p.2.bit) := by
  have hbits : namedBits = orAll (permNames.map fun p => p.2.bit) := by
    rw [namedBits, toPermBits_eq_orAll, List.map_map]
    rfl
  have hisBit : ∀ bit ∈ permNames.map fun p => p.2.bit, IsBit bit := by
    intro bit hbit
    obtain ⟨p, -, rfl⟩ := List.mem_map.mp hbit
    exact isBit_bit p.2
  rw [hbits, and_orAll perms hisBit, List.filter_map, namedIn]
  rfl

section Reading

def IsPermName (token : Bytes) : Prop := ∃ p ∈ permNames, p.1 = token

instance (token : Bytes) : Decidable (IsPermName token) :=
  inferInstanceAs (Decidable (∃ _ ∈ _, _))

/-- The bit that a name stands for, and nothing for other tokens. -/
def bitOf (token : Bytes) : UInt32 :=
  ((permNames.find? fun p => p.1 = token).map fun p => p.2.bit).getD 0

theorem toPermBit_eq (token : Bytes) :
    Path.toPermBit token
      = if IsPermName token then .ok (bitOf token) else .error .notFound := by
  unfold Path.toPermBit bitOf
  cases hfind : permNames.find? fun p => p.1 = token with
  | some p =>
      have hname : IsPermName token :=
        ⟨p, List.mem_of_find?_eq_some hfind, by simpa using List.find?_some hfind⟩
      rw [if_pos hname]
      rfl
  | none =>
      have hno : ¬ IsPermName token := by
        rintro ⟨p, hp, hname⟩
        exact absurd hname (by simpa using List.find?_eq_none.mp hfind p hp)
      rw [if_neg hno]

/-- One turn of the loop of `ToPermBits`. -/
def addPermBit (rval : UInt32) (perm : Bytes) : Except Exception UInt32 :=
  (Path.toPermBit perm).map (rval ||| ·)

theorem toPermBitsOfNames_eq_foldlM (list : Bytes) :
    Path.toPermBitsOfNames list = (Path.doSplit list comma).foldlM addPermBit 0 := by
  unfold Path.toPermBitsOfNames
  congr 1
  funext rval perm
  unfold addPermBit
  cases Path.toPermBit perm <;> rfl

theorem foldlM_addPermBit (tokens : List Bytes) (acc : UInt32) :
    tokens.foldlM addPermBit acc
      = if ∀ token ∈ tokens, IsPermName token then .ok (acc ||| orAll (tokens.map bitOf))
        else .error .notFound := by
  induction tokens generalizing acc with
  | nil =>
      rw [if_pos (by simp), List.map_nil, orAll_nil, UInt32.or_zero]
      rfl
  | cons token tokens ih =>
      rw [List.foldlM_cons, addPermBit, toPermBit_eq]
      by_cases hname : IsPermName token
      · rw [if_pos hname]
        change List.foldlM addPermBit (acc ||| bitOf token) tokens = _
        rw [ih, List.map_cons, orAll_cons, UInt32.or_assoc]
        simp only [List.forall_mem_cons, hname, true_and]
      · rw [if_neg hname, if_neg fun hall => hname (hall token List.mem_cons_self)]
        rfl

theorem toPermBitsOfNames_eq (list : Bytes) :
    Path.toPermBitsOfNames list
      = if ∀ token ∈ segments comma list, IsPermName token then
          .ok (orAll ((segments comma list).map bitOf))
        else .error .notFound := by
  rw [toPermBitsOfNames_eq_foldlM, Path.doSplit_eq, foldlM_addPermBit, UInt32.zero_or]

theorem orAll_fields (fields : List Bytes) :
    orAll ((fields.filter fun field => !field.isEmpty).map bitOf) = orAll (fields.map bitOf) := by
  have hempty : bitOf [] = 0 := by decide +kernel
  induction fields with
  | nil => rfl
  | cons field fields ih =>
      cases field with
      | nil => simpa [hempty] using ih
      | cons c rest => simpa using congrArg (bitOf (c :: rest) ||| ·) ih

theorem forall_segments {list : Bytes} {P : Bytes → Prop} :
    (∀ token ∈ segments comma list, P token) ↔ ∀ field ∈ list.splitOn comma, field = [] ∨ P field := by
  simp [segments, or_iff_not_imp_left]

end Reading

section Printing

theorem printNames_of_printed (perms : UInt32) (val : Bytes) (names : List (Bytes × PermissionBits)) :
    Path.printNames perms val false names
      = val ++ (names.filter fun p => perms &&& p.2.bit != 0).flatMap fun p => p.1 ++ bytes ", " := by
  induction names generalizing val with
  | nil => simp [Path.printNames]
  | cons p names ih =>
      rw [Path.printNames, List.filter_cons]
      cases hbit : perms &&& p.2.bit != 0 with
      | true =>
          rw [if_pos rfl, if_pos rfl]
          change Path.printNames perms (val ++ p.1 ++ bytes ", ") false names = _
          rw [ih, List.flatMap_cons]
          simp only [List.append_assoc]
      | false => rw [if_neg Bool.false_ne_true, if_neg Bool.false_ne_true, ih]

/-- The first name, and then every other one with a separator behind it. -/
def joinNames : List (Bytes × PermissionBits) → Bytes
  | [] => []
  | first :: others => first.1 ++ others.flatMap fun p => p.1 ++ bytes ", "

theorem toPermNames_eq (perms : UInt32) : Path.toPermNames perms = joinNames (namedIn perms) := by
  unfold Path.toPermNames namedIn
  induction permNames with
  | nil => rfl
  | cons p names ih =>
      rw [Path.printNames, List.filter_cons]
      cases hbit : perms &&& p.2.bit != 0 with
      | true =>
          rw [if_pos rfl, if_pos rfl]
          change Path.printNames perms ([] ++ p.1 ++ []) false names = _
          rw [printNames_of_printed, List.nil_append, List.append_nil, joinNames]
      | false => rw [if_neg Bool.false_ne_true, if_neg Bool.false_ne_true, ih]

theorem isSegment_of_mem_permNames {p : Bytes × PermissionBits} (hp : p ∈ permNames) :
    IsSegment comma p.1 := by
  have hall : ∀ p ∈ permNames, IsSegment comma p.1 := by decide +kernel
  exact hall p hp

theorem eq_of_isPrefixOf {p q : Bytes × PermissionBits} (hp : p ∈ permNames) (hq : q ∈ permNames)
    (h : p.1 <+: q.1) : p = q := by
  have hall : ∀ p ∈ permNames, ∀ q ∈ permNames, p.1.isPrefixOf q.1 → p = q := by decide +kernel
  exact hall p hp q hq (List.isPrefixOf_iff_prefix.mpr h)

theorem bitOf_of_mem_permNames {p : Bytes × PermissionBits} (hp : p ∈ permNames) :
    bitOf p.1 = p.2.bit := by
  unfold bitOf
  cases hfind : permNames.find? fun q => q.1 = p.1 with
  | none => exact absurd (decide_eq_true rfl) (List.find?_eq_none.mp hfind p hp)
  | some q =>
      have hname : q.1 = p.1 := by simpa using List.find?_some hfind
      rw [eq_of_isPrefixOf (List.mem_of_find?_eq_some hfind) hp (hname ▸ List.prefix_rfl)]
      rfl

theorem not_isPermName_append {p q : Bytes × PermissionBits} (hp : p ∈ permNames)
    (hq : q ∈ permNames) : ¬ IsPermName (p.1 ++ q.1) := by
  rintro ⟨r, hr, hname⟩
  obtain rfl : p = r := eq_of_isPrefixOf hp hr ⟨q.1, hname.symm⟩
  have hempty : q.1 = [] := List.append_right_eq_self.mp hname.symm
  exact (isSegment_of_mem_permNames hq).1 hempty

theorem segments_joinNames_singleton {p : Bytes × PermissionBits} (hp : p ∈ permNames) :
    segments comma (joinNames [p]) = [p.1] := by
  rw [joinNames, List.flatMap_nil, List.append_nil,
    segments_of_isSegment (isSegment_of_mem_permNames hp)]

theorem mem_segments_joinNames {p q : Bytes × PermissionBits} (hp : p ∈ permNames)
    (hq : q ∈ permNames) (others : List (Bytes × PermissionBits)) :
    p.1 ++ q.1 ∈ segments comma (joinNames (p :: q :: others)) := by
  have hp' := isSegment_of_mem_permNames hp
  have hq' := isSegment_of_mem_permNames hq
  have hsegment : IsSegment comma (p.1 ++ q.1) := ⟨by simp [hp'.1], by simp [hp'.2, hq'.2]⟩
  have htext : joinNames (p :: q :: others)
      = (p.1 ++ q.1) ++ comma :: (space :: others.flatMap fun p => p.1 ++ bytes ", ") := by
    rw [joinNames, List.flatMap_cons]
    simp [bytes, comma, space]
  rw [htext, segments_segment_sep hsegment]
  exact List.mem_cons_self

/-- Names can be read from their print if there is one at the most. -/
theorem readable_joinNames {names : List (Bytes × PermissionBits)} (h : ∀ p ∈ names, p ∈ permNames) :
    (∀ token ∈ segments comma (joinNames names), IsPermName token) ↔ names.length ≤ 1 := by
  cases names with
  | nil => simp [joinNames]
  | cons p names =>
      have hp := h p List.mem_cons_self
      cases names with
      | nil =>
          simp only [segments_joinNames_singleton hp, List.mem_singleton, forall_eq,
            List.length_singleton, le_refl, iff_true]
          exact ⟨p, hp, rfl⟩
      | cons q others =>
          have hq := h q (List.mem_cons_of_mem _ List.mem_cons_self)
          constructor
          · intro hall
            exact absurd (hall _ (mem_segments_joinNames hp hq others)) (not_isPermName_append hp hq)
          · intro hlength
            simp at hlength

theorem mem_permNames_of_mem_namedIn {perms : UInt32} {p : Bytes × PermissionBits}
    (hp : p ∈ namedIn perms) : p ∈ permNames :=
  List.mem_of_mem_filter hp

theorem bits_toPermNames {perms : UInt32} (h : (namedIn perms).length ≤ 1) :
    orAll ((segments comma (Path.toPermNames perms)).map bitOf) = perms &&& namedBits := by
  rw [and_namedBits, toPermNames_eq]
  have hmem : ∀ p ∈ namedIn perms, p ∈ permNames := fun p hp => mem_permNames_of_mem_namedIn hp
  generalize namedIn perms = names at h hmem
  cases names with
  | nil => rfl
  | cons p names =>
      obtain rfl : names = [] := List.length_eq_zero_iff.mp (by simpa using h)
      have hp := hmem p List.mem_cons_self
      rw [segments_joinNames_singleton hp, List.map_singleton, List.map_singleton,
        bitOf_of_mem_permNames hp]

end Printing

/-- What is printed for masks, joined by commas, is read as the named bits of all of them. -/
def RoundTrips (masks : List UInt32) : Prop :=
  Path.toPermBitsOfNames ([comma].intercalate (masks.map Path.toPermNames))
    = .ok (orAll (masks.map (· &&& namedBits)))

instance (masks : List UInt32) : Decidable (RoundTrips masks) :=
  inferInstanceAs (Decidable (_ = _))

theorem roundTrips_eq (masks : List UInt32)
    [Decidable (∀ mask ∈ masks, (namedIn mask).length ≤ 1)] :
    Path.toPermBitsOfNames ([comma].intercalate (masks.map Path.toPermNames))
      = if ∀ mask ∈ masks, (namedIn mask).length ≤ 1 then
          .ok (orAll (masks.flatMap fun mask =>
            (segments comma (Path.toPermNames mask)).map bitOf))
        else .error .notFound := by
  have hread : (∀ token ∈ masks.flatMap fun mask => segments comma (Path.toPermNames mask),
        IsPermName token)
      ↔ ∀ mask ∈ masks, (namedIn mask).length ≤ 1 := by
    simp only [List.forall_mem_flatMap]
    refine forall₂_congr fun mask _ => ?_
    rw [toPermNames_eq, readable_joinNames fun p hp => mem_permNames_of_mem_namedIn hp]
  rw [toPermBitsOfNames_eq, segments_intercalate, List.flatMap_map, List.map_flatMap]
  exact if_congr hread rfl rfl

theorem orAll_flatMap {masks : List UInt32} (h : ∀ mask ∈ masks, (namedIn mask).length ≤ 1) :
    orAll (masks.flatMap fun mask => (segments comma (Path.toPermNames mask)).map bitOf)
      = orAll (masks.map (· &&& namedBits)) := by
  induction masks with
  | nil => rfl
  | cons mask masks ih =>
      rw [List.flatMap_cons, orAll_append, bits_toPermNames (h mask List.mem_cons_self),
        ih fun other hother => h other (List.mem_cons_of_mem _ hother), List.map_cons, orAll_cons]

/-- **Permission names.** What is printed for masks is read back if and only if none of them has two
bits with a name. A text is read as the bits of its fields, whatever their order and however often
they occur, empty ones left out, and is refused when one of them is no name. -/
theorem roundTrips_iff (masks : List UInt32) (list : Bytes) :
    (RoundTrips masks ↔ ∀ mask ∈ masks, (namedIn mask).length ≤ 1)
      ∧ Path.toPermBitsOfNames list
        = if ∀ field ∈ list.splitOn comma, field = [] ∨ IsPermName field then
            .ok (orAll ((list.splitOn comma).map bitOf))
          else .error .notFound := by
  constructor
  · have := List.decidableBAll (fun mask => (namedIn mask).length ≤ 1) masks
    rw [RoundTrips, roundTrips_eq]
    constructor
    · intro hread
      by_contra hnot
      rw [if_neg hnot] at hread
      exact absurd hread (by simp)
    · intro h
      rw [if_pos h, orAll_flatMap h]
  · rw [toPermBitsOfNames_eq, segments, orAll_fields]
    exact if_congr forall_segments rfl rfl

theorem not_roundTrips_canRead_canWrite :
    ¬ RoundTrips [PermissionBits.canRead.bit ||| PermissionBits.canWrite.bit] := by
  decide +kernel

end Wfde
