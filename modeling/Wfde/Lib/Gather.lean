import Mathlib.Data.List.Basic

/-!
# Gathering chunks up to a delimiter

A stream arrives in chunks. `gather` appends chunks to what is held until a delimiter is among the
held elements, until `limit` elements are held without one, or until no chunk is left (an empty
chunk ends the stream too).
-/

namespace Gather

variable {α : Type*} (p : α → Bool) (limit : Nat)

inductive Verdict where
  | found (pos : Nat)
  | full
  | exhausted
  deriving DecidableEq

/-- Where a search stopped: the elements held, how many of them the last chunk brought, and the
chunks not taken. -/
structure Gathered (α : Type*) where
  verdict : Verdict
  held : List α
  last : Nat
  rest : List (List α)

def gather (held : List α) (last : Nat) (chunks : List (List α)) : Gathered α :=
  match held.findIdx? p with
  | some pos => ⟨.found pos, held, last, chunks⟩
  | none =>
      if limit ≤ held.length then ⟨.full, held, last, chunks⟩
      else
        match chunks with
        | [] => ⟨.exhausted, held, 0, []⟩
        | chunk :: more =>
            if chunk.isEmpty then ⟨.exhausted, held, 0, more⟩
            else gather (held ++ chunk) chunk.length more

variable {p limit}

theorem gather_of_found {held : List α} {last pos : Nat} {chunks : List (List α)}
    (hpos : held.findIdx? p = some pos) :
    gather p limit held last chunks = ⟨.found pos, held, last, chunks⟩ := by
  unfold gather
  rw [hpos]

theorem gather_of_full {held : List α} {last : Nat} {chunks : List (List α)}
    (hnone : held.findIdx? p = none) (hfull : limit ≤ held.length) :
    gather p limit held last chunks = ⟨.full, held, last, chunks⟩ := by
  unfold gather
  rw [hnone]
  simp [hfull]

theorem gather_nil {held : List α} {last : Nat} (hnone : held.findIdx? p = none)
    (hroom : held.length < limit) : gather p limit held last [] = ⟨.exhausted, held, 0, []⟩ := by
  unfold gather
  rw [hnone]
  simp [Nat.not_le.mpr hroom]

theorem gather_cons {held chunk : List α} (last : Nat) (more : List (List α))
    (hnone : held.findIdx? p = none) (hroom : held.length < limit) (hchunk : chunk ≠ []) :
    gather p limit held last (chunk :: more)
      = gather p limit (held ++ chunk) chunk.length more := by
  conv_lhs => unfold gather
  rw [hnone]
  simp [Nat.not_le.mpr hroom, hchunk]

theorem gather_cons_nil {held : List α} {last : Nat} {more : List (List α)}
    (hnone : held.findIdx? p = none) (hroom : held.length < limit) :
    gather p limit held last ([] :: more) = ⟨.exhausted, held, 0, more⟩ := by
  conv_lhs => unfold gather
  rw [hnone]
  simp [Nat.not_le.mpr hroom]

/-- What is held in the end is what was held, and the chunks taken. -/
theorem exists_taken (held : List α) (last : Nat) (chunks : List (List α)) :
    ∃ taken, taken <+: chunks
      ∧ (gather p limit held last chunks).held = held ++ taken.flatten := by
  induction chunks generalizing held last with
  | nil =>
      refine ⟨[], List.nil_prefix, ?_⟩
      unfold gather
      split
      · simp
      · split <;> simp
  | cons chunk chunks ih =>
      cases hfind : held.findIdx? p with
      | some pos => exact ⟨[], List.nil_prefix, by simp [gather_of_found hfind]⟩
      | none =>
          by_cases hfull : limit ≤ held.length
          · exact ⟨[], List.nil_prefix, by simp [gather_of_full hfind hfull]⟩
          · have hroom : held.length < limit := Nat.lt_of_not_le hfull
            by_cases hchunk : chunk = []
            · subst hchunk
              exact ⟨[], List.nil_prefix, by simp [gather_cons_nil hfind hroom]⟩
            · obtain ⟨taken, htaken, hheld⟩ := ih (held ++ chunk) chunk.length
              refine ⟨chunk :: taken, List.cons_prefix_cons.mpr ⟨rfl, htaken⟩, ?_⟩
              rw [gather_cons last chunks hfind hroom hchunk, hheld, List.append_assoc,
                List.flatten_cons]

/-- The first delimiter of a stream that has one behind the delimiter-free `line`. -/
theorem findIdx?_line {line rest : List α} {delim : α} (hline : ∀ x ∈ line, p x = false)
    (hdelim : p delim = true) : (line ++ delim :: rest).findIdx? p = some line.length := by
  rw [List.findIdx?_append, List.findIdx?_eq_none_iff.mpr hline]
  simp [List.findIdx?_cons, hdelim]

theorem findIdx?_of_le {held later line rest : List α} {delim : α}
    (hsplit : held ++ later = line ++ delim :: rest) (hline : ∀ x ∈ line, p x = false)
    (hle : held.length ≤ line.length) : held.findIdx? p = none := by
  have hfront : held = line.take held.length := by
    have htake := congrArg (List.take held.length) hsplit
    rwa [List.take_left, List.take_append_of_le_length hle] at htake
  refine List.findIdx?_eq_none_iff.mpr fun x hx => ?_
  rw [hfront] at hx
  exact hline x (List.mem_of_mem_take hx)

theorem findIdx?_of_lt {held later line rest : List α} {delim : α}
    (hsplit : held ++ later = line ++ delim :: rest) (hline : ∀ x ∈ line, p x = false)
    (hdelim : p delim = true) (hlt : line.length < held.length) :
    held.findIdx? p = some line.length := by
  have hfront : line ++ [delim] <+: held := by
    have hall : line ++ [delim] <+: line ++ delim :: rest := ⟨rest, by simp⟩
    refine List.prefix_of_prefix_length_le (hsplit ▸ hall) ⟨later, rfl⟩ ?_
    simpa using Nat.succ_le_of_lt hlt
  obtain ⟨tail, rfl⟩ := hfront
  rw [List.append_assoc, List.singleton_append]
  exact findIdx?_line hline hdelim

/-- Gathering a line: the chunks taken are the ones up to the first that goes past it. -/
theorem gather_line {line rest : List α} {delim : α} (hline : ∀ x ∈ line, p x = false)
    (hdelim : p delim = true) (hlimit : line.length < limit) {chunks : List (List α)}
    (hchunks : ∀ chunk ∈ chunks, chunk ≠ []) {held : List α} (last : Nat)
    (hsplit : held ++ chunks.flatten = line ++ delim :: rest) :
    ∃ taken more, chunks = taken ++ more
      ∧ (∃ n, gather p limit held last chunks
          = ⟨.found line.length, held ++ taken.flatten, n, more⟩)
      ∧ line.length < (held ++ taken.flatten).length
      ∧ (held.length ≤ line.length → (held ++ taken.dropLast.flatten).length ≤ line.length)
      ∧ (line.length < held.length → taken = []) := by
  induction chunks generalizing held last with
  | nil =>
      have hheld : held = line ++ delim :: rest := by simpa using hsplit
      have hlt : line.length < held.length := by simp [hheld]
      exact ⟨[], [], rfl, ⟨last, by
        simpa using gather_of_found (findIdx?_of_lt hsplit hline hdelim hlt)⟩, by simpa using hlt,
        by simp, fun _ => rfl⟩
  | cons chunk chunks ih =>
      by_cases hlt : line.length < held.length
      · exact ⟨[], chunk :: chunks, rfl, ⟨last, by
          simpa using gather_of_found (findIdx?_of_lt hsplit hline hdelim hlt)⟩, by simpa using hlt,
          by simp, fun _ => rfl⟩
      · have hle : held.length ≤ line.length := Nat.le_of_not_lt hlt
        have hnone := findIdx?_of_le hsplit hline hle
        have hstep := gather_cons last chunks hnone
          (Nat.lt_of_le_of_lt hle hlimit) (hchunks chunk (by simp))
        have hlater : held ++ chunk ++ chunks.flatten = line ++ delim :: rest := by
          simpa [List.append_assoc] using hsplit
        obtain ⟨taken, more, rfl, ⟨n, hgather⟩, hpast, hbefore, hstop⟩ :=
          ih (fun c hc => hchunks c (by simp [hc])) chunk.length hlater
        refine ⟨chunk :: taken, more, rfl, ⟨n, ?_⟩, ?_, ?_, fun h => absurd h hlt⟩
        · rw [hstep, hgather]
          simp
        · simpa [List.append_assoc] using hpast
        · intro _
          by_cases hreach : line.length < (held ++ chunk).length
          · simpa [hstop hreach] using hle
          · have hne : taken ≠ [] := by
              rintro rfl
              simp only [List.flatten_nil, List.append_nil] at hpast
              exact hreach hpast
            simpa [List.dropLast_cons_of_ne_nil hne, List.append_assoc] using
              hbefore (Nat.le_of_not_lt hreach)

/-- When only the last chunk can bring `d`, the whole ends in `d` if and only if a part of it
does. -/
theorem getLast?_append_flatten_ne_iff {held : List α} {taken : List (List α)} {d : α}
    (hchunks : ∀ chunk ∈ taken, chunk ≠ [])
    (hbefore : taken ≠ [] → d ∉ held ++ taken.dropLast.flatten) :
    (held ++ taken.flatten).getLast? ≠ some d
      ↔ held.getLast? ≠ some d ∧ ∀ chunk ∈ taken, chunk.getLast? ≠ some d := by
  rcases List.eq_nil_or_concat taken with rfl | ⟨before, last, rfl⟩
  · simp
  · have hclean : d ∉ held ++ before.flatten := by simpa using hbefore (by simp)
    have hlast : last ≠ [] := hchunks last (by simp)
    have hwhole : (held ++ (before.concat last).flatten).getLast? = last.getLast? := by
      rw [List.concat_eq_append, List.flatten_append, List.flatten_singleton, ← List.append_assoc,
        List.getLast?_append_of_ne_nil _ hlast]
    have hheld : held.getLast? ≠ some d := fun h =>
      hclean (List.mem_append_left _ (List.mem_of_getLast? h))
    have hothers : ∀ chunk ∈ before, chunk.getLast? ≠ some d := fun chunk hchunk h =>
      hclean (List.mem_append_right _ (List.mem_flatten.mpr ⟨chunk, hchunk, List.mem_of_getLast? h⟩))
    rw [hwhole]
    constructor
    · intro h
      refine ⟨hheld, fun chunk hchunk => ?_⟩
      have hmem : chunk ∈ before ∨ chunk = last := by simpa [List.concat_eq_append] using hchunk
      rcases hmem with hin | rfl
      · exact hothers chunk hin
      · exact h
    · rintro ⟨-, h⟩
      exact h last (by simp)

end Gather
