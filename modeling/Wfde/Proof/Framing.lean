import Wfde.Lib.Gather
import Wfde.SessionInput

/-!
# The control channel buffer

`FetchNextCommand` is `gather` on the bytes left over, as long as the leftover lies inside the
buffer. What breaks is the subtraction behind it: the search stops at either character of a CRLF,
the code skips two bytes, and when the character found is the last one received the count of the
leftover bytes wraps. The next call then moves 2^64 - 1 bytes.
-/

namespace Wfde

open Gather

namespace WfdeFtpSessionInput

variable {α : Type} {val : α → UInt8}

/-- The leftover lies inside the buffer. -/
structure Inside (s : WfdeFtpSessionInput α) : Prop where
  size : s.inputBuffer.length = inputBufferSize
  le : s.currentBuffer + s.bytesLeftover ≤ inputBufferSize

def pending (s : WfdeFtpSessionInput α) : List α :=
  (s.inputBuffer.drop s.currentBuffer).take s.bytesLeftover

/-- The search a call of `FetchNextCommand` is. -/
def search (val : α → UInt8) (s : WfdeFtpSessionInput α) (reads : List (List α)) : Gathered α :=
  gather (isCrlf val) (inputBufferSize - 1) s.pending 0 reads

/-- What a call that started with `stale` leftover bytes makes of its search. -/
structure Follows (stale : Nat) (found : Gathered α) (result : Fetched α) : Prop where
  received : result.received = found.held
  unread : result.unread = found.rest
  size : result.input.inputBuffer.length = inputBufferSize
  held : result.input.inputBuffer.take found.held.length = found.held
  held_le : found.held.length ≤ inputBufferSize
  calls : ∀ call ∈ result.calls, call.offset + call.bytes ≤ inputBufferSize
  outcome : match found.verdict with
    | .found pos =>
        result.outcome = .request (found.held.take pos) ∧ pos < found.held.length
          ∧ result.input.bytesLeftover = sizeSub (sizeSub found.held.length pos) 2
          ∧ (0 < result.input.bytesLeftover → result.input.currentBuffer = pos + 2)
          ∧ (result.input.bytesLeftover = 0 → result.input.currentBuffer ≤ inputBufferSize)
    | .full =>
        result.outcome = .inputTooBig ∧ result.input.bytesLeftover = stale
          ∧ result.input.currentBuffer = found.held.length - found.last
    | .exhausted =>
        result.outcome = .noInput ∧ result.input.bytesLeftover = stale
          ∧ result.input.currentBuffer = found.held.length

theorem readSome_take {s : WfdeFtpSessionInput α} (read : List α)
    (hcur : s.currentBuffer ≤ s.inputBuffer.length) :
    (s.readSome read).inputBuffer.take (s.currentBuffer + read.length)
      = s.inputBuffer.take s.currentBuffer ++ read := by
  have hlen : (s.inputBuffer.take s.currentBuffer ++ read).length
      = s.currentBuffer + read.length := by simp [hcur]
  unfold readSome
  rw [← hlen, List.take_left]

theorem readSome_length (s : WfdeFtpSessionInput α) (read : List α)
    (hfit : s.currentBuffer + read.length ≤ s.inputBuffer.length) :
    (s.readSome read).inputBuffer.length = s.inputBuffer.length := by
  simp only [readSome, List.length_append, List.length_take, List.length_drop]
  omega

theorem moveLeftover_take {s : WfdeFtpSessionInput α} (hs : s.Inside) :
    s.moveLeftover.inputBuffer.take s.bytesLeftover = s.pending := by
  have hlen : s.pending.length = s.bytesLeftover := by
    have hsize := hs.size
    have hle := hs.le
    simp only [pending, List.length_take, List.length_drop]
    omega
  unfold moveLeftover
  change List.take s.bytesLeftover (s.pending ++ _) = _
  rw [← hlen, List.take_left]

theorem moveLeftover_length {s : WfdeFtpSessionInput α} (hs : s.Inside) :
    s.moveLeftover.inputBuffer.length = inputBufferSize := by
  have hsize := hs.size
  have hle := hs.le
  simp only [moveLeftover, List.length_append, List.length_take, List.length_drop]
  omega

theorem follows_request {s : WfdeFtpSessionInput α} (found : Gathered α) {stale eob : Nat}
    {calls : List ReadSomeCall} (hsize : s.inputBuffer.length = inputBufferSize)
    (hcur : s.currentBuffer ≤ inputBufferSize)
    (hheld : s.inputBuffer.take found.held.length = found.held)
    (hle : found.held.length ≤ inputBufferSize)
    (hcalls : ∀ call ∈ calls, call.offset + call.bytes ≤ inputBufferSize)
    (hverdict : found.verdict = .found eob) (heob : eob < found.held.length) :
    Follows stale found
      { outcome := .request (s.inputBuffer.take eob)
        input := s.takeRequest found.held.length eob
        received := found.held, unread := found.rest, calls := calls } where
  received := rfl
  unread := rfl
  size := hsize
  held := hheld
  held_le := hle
  calls := hcalls
  outcome := by
    rw [hverdict]
    refine ⟨?_, heob, rfl, fun hpos => ?_, fun hzero => ?_⟩
    · rw [← hheld, List.take_take, Nat.min_eq_left heob.le]
    · exact if_pos hpos
    · refine (if_neg ?_).trans_le hcur
      exact Nat.not_lt.mpr hzero.le

theorem lt_length_of_findIdx? {p : α → Bool} {xs : List α} {pos : Nat}
    (h : xs.findIdx? p = some pos) : pos < xs.length :=
  (List.findIdx?_eq_some_iff_findIdx_eq.mp h).1

section Loop

variable {s : WfdeFtpSessionInput α} {read : List α} {reads : List (List α)} {eob : Nat}

/-- The call of `ReadSome` that brings a read. -/
def callFor (s : WfdeFtpSessionInput α) (read : List α) : ReadSomeCall :=
  ⟨s.currentBuffer, inputBufferSize - s.currentBuffer, read.length⟩

theorem cmdBuffer_readSome (read : List α) (hcur : s.currentBuffer ≤ s.inputBuffer.length) :
    (s.readSome read).cmdBuffer read.length = s.inputBuffer.take s.currentBuffer ++ read := by
  rw [cmdBuffer, Nat.add_comm]
  exact readSome_take read hcur

theorem fetchLoop_found (hcur : s.currentBuffer ≤ s.inputBuffer.length) (hread : read ≠ [])
    (hfind : (s.inputBuffer.take s.currentBuffer ++ read).findIdx? (isCrlf val) = some eob) :
    fetchLoop val s (read :: reads)
      = { outcome := .request ((s.readSome read).inputBuffer.take eob)
          input := (s.readSome read).takeRequest
            (s.inputBuffer.take s.currentBuffer ++ read).length eob
          received := s.inputBuffer.take s.currentBuffer ++ read, unread := reads
          calls := [s.callFor read] } := by
  have hempty : read.isEmpty = false := by simp [hread]
  unfold fetchLoop
  simp only [hempty, Bool.false_eq_true, if_false, cmdBuffer_readSome read hcur, hfind]
  rfl

theorem fetchLoop_full (hcur : s.currentBuffer ≤ s.inputBuffer.length) (hread : read ≠ [])
    (hfind : (s.inputBuffer.take s.currentBuffer ++ read).findIdx? (isCrlf val) = none)
    (hfull : inputBufferSize - 1 ≤ read.length + s.currentBuffer) :
    fetchLoop val s (read :: reads)
      = { outcome := .inputTooBig, input := s.readSome read
          received := s.inputBuffer.take s.currentBuffer ++ read, unread := reads
          calls := [s.callFor read] } := by
  have hempty : read.isEmpty = false := by simp [hread]
  unfold fetchLoop
  simp only [hempty, Bool.false_eq_true, if_false, cmdBuffer_readSome read hcur, hfind]
  exact if_pos hfull

theorem fetchLoop_next (hcur : s.currentBuffer ≤ s.inputBuffer.length) (hread : read ≠ [])
    (hfind : (s.inputBuffer.take s.currentBuffer ++ read).findIdx? (isCrlf val) = none)
    (hroom : ¬ inputBufferSize - 1 ≤ read.length + s.currentBuffer) :
    let later := fetchLoop val
      { s.readSome read with currentBuffer := s.currentBuffer + read.length } reads
    fetchLoop val s (read :: reads) = { later with calls := s.callFor read :: later.calls } := by
  intro later
  have hempty : read.isEmpty = false := by simp [hread]
  conv_lhs => unfold fetchLoop
  simp only [hempty, Bool.false_eq_true, if_false, cmdBuffer_readSome read hcur, hfind]
  exact if_neg hroom

theorem callFor_mem_fetchLoop (s : WfdeFtpSessionInput α) (hread : read ≠ [])
    (reads : List (List α)) : s.callFor read ∈ (fetchLoop val s (read :: reads)).calls := by
  have hempty : read.isEmpty = false := by simp [hread]
  unfold fetchLoop
  simp only [hempty, Bool.false_eq_true, if_false]
  split
  · simp [callFor]
  · split <;> simp [callFor]

theorem follows_noInput {last : Nat} {rest : List (List α)} {calls : List ReadSomeCall}
    (hsize : s.inputBuffer.length = inputBufferSize) (hcur : s.currentBuffer ≤ inputBufferSize)
    (hcalls : ∀ call ∈ calls, call.offset + call.bytes ≤ inputBufferSize) :
    Follows s.bytesLeftover ⟨.exhausted, s.inputBuffer.take s.currentBuffer, last, rest⟩
      { outcome := .noInput, input := s, received := s.cmdBuffer 0, unread := rest, calls } := by
  have hlen : (s.inputBuffer.take s.currentBuffer).length = s.currentBuffer := by
    rw [List.length_take, hsize, Nat.min_eq_left hcur]
  refine ⟨by simp [cmdBuffer], rfl, hsize, ?_, ?_, hcalls, rfl, rfl, hlen.symm⟩
  · simp
  · exact hlen.trans_le hcur

end Loop

/-- The loop is `gather`, from any point where the bytes before `current_buffer_` were searched. -/
theorem fetchLoop_follows (reads : List (List α)) (s : WfdeFtpSessionInput α) (last : Nat)
    (hsize : s.inputBuffer.length = inputBufferSize)
    (hnone : (s.inputBuffer.take s.currentBuffer).findIdx? (isCrlf val) = none)
    (hroom : s.currentBuffer < inputBufferSize - 1) (hfit : ReadsFit (fetchLoop val s reads)) :
    Follows s.bytesLeftover
      (gather (isCrlf val) (inputBufferSize - 1) (s.inputBuffer.take s.currentBuffer) last reads)
      (fetchLoop val s reads) := by
  have hcur : s.currentBuffer ≤ s.inputBuffer.length := by omega
  have hlen : (s.inputBuffer.take s.currentBuffer).length = s.currentBuffer := by simp [hcur]
  have hasked : s.currentBuffer + (inputBufferSize - s.currentBuffer) ≤ inputBufferSize := by omega
  induction reads generalizing s last with
  | nil =>
      rw [gather_nil hnone (by omega)]
      exact follows_noInput hsize (by omega) (by simpa using hasked)
  | cons read reads ih =>
      by_cases hread : read = []
      · subst hread
        rw [gather_cons_nil hnone (by omega)]
        exact follows_noInput hsize (by omega) (by simpa using hasked)
      · rw [gather_cons _ _ hnone (by omega) hread]
        have hgot : read.length ≤ inputBufferSize - s.currentBuffer :=
          hfit _ (callFor_mem_fetchLoop s hread reads)
        have htake := readSome_take read hcur
        have hlength := readSome_length s read (by omega)
        have hheld : (s.inputBuffer.take s.currentBuffer ++ read).length
            = s.currentBuffer + read.length := by simp [hcur]
        have hcalls : ∀ call ∈ [s.callFor read], call.offset + call.bytes ≤ inputBufferSize := by
          simpa [callFor] using hasked
        cases hfind : (s.inputBuffer.take s.currentBuffer ++ read).findIdx? (isCrlf val) with
        | some eob =>
            rw [gather_of_found hfind, fetchLoop_found hcur hread hfind]
            refine follows_request ⟨.found eob, _, _, _⟩ (hlength.trans hsize) ?_ ?_ ?_ hcalls
              rfl (lt_length_of_findIdx? hfind)
            · change s.currentBuffer ≤ _
              omega
            · rw [hheld, htake]
            · rw [hheld]
              omega
        | none =>
            by_cases hfull : inputBufferSize - 1 ≤ read.length + s.currentBuffer
            · rw [gather_of_full hfind (by rw [hheld]; omega), fetchLoop_full hcur hread hfind hfull]
              refine ⟨rfl, rfl, hlength.trans hsize, ?_, ?_, hcalls, rfl, rfl, ?_⟩
              · rw [hheld, htake]
              · rw [hheld]
                omega
              · change s.currentBuffer = (s.inputBuffer.take s.currentBuffer ++ read).length - read.length
                rw [hheld]
                omega
            · set next : WfdeFtpSessionInput α :=
                { s.readSome read with currentBuffer := s.currentBuffer + read.length } with hnext
              rw [fetchLoop_next hcur hread hfind hfull] at hfit ⊢
              have htail : ReadsFit (fetchLoop val next reads) := fun call hcall =>
                hfit call (List.mem_cons_of_mem _ hcall)
              have hsearched : next.inputBuffer.take next.currentBuffer
                  = s.inputBuffer.take s.currentBuffer ++ read := htake
              have hpos : next.currentBuffer = s.currentBuffer + read.length := rfl
              have hnextSize : next.inputBuffer.length = inputBufferSize := hlength.trans hsize
              have hrec := ih next read.length hnextSize (by rw [hsearched]; exact hfind) (by omega)
                htail (by omega) (by rw [hsearched, hheld]) (by omega)
              rw [hsearched] at hrec
              refine ⟨hrec.received, hrec.unread, hrec.size, hrec.held, hrec.held_le, ?_, hrec.outcome⟩
              intro call hcall
              rcases List.mem_cons.mp hcall with rfl | hcall
              · exact hasked
              · exact hrec.calls call hcall

theorem pending_eq_nil {s : WfdeFtpSessionInput α} (hzero : s.bytesLeftover = 0) :
    s.pending = [] := by
  simp [pending, hzero]

theorem pending_length {s : WfdeFtpSessionInput α} (hs : s.Inside) :
    s.pending.length = s.bytesLeftover := by
  have hsize := hs.size
  have hle := hs.le
  simp only [pending, List.length_take, List.length_drop]
  omega

/-- A call of `FetchNextCommand` that starts with its leftover inside the buffer is the search. -/
theorem fetchNextCommand_follows {s : WfdeFtpSessionInput α} (hs : s.Inside)
    (reads : List (List α)) (hfit : ReadsFit (fetchNextCommand val s reads)) :
    Follows s.bytesLeftover (search val s reads) (fetchNextCommand val s reads) := by
  have hbounds : 1 < inputBufferSize := by decide
  unfold search
  unfold fetchNextCommand at hfit ⊢
  by_cases hzero : s.bytesLeftover = 0
  · rw [if_pos hzero] at hfit ⊢
    rw [pending_eq_nil hzero]
    exact fetchLoop_follows reads { s with currentBuffer := 0 } 0 hs.size (by simp)
      (Nat.sub_pos_of_lt hbounds) hfit
  · have hinside : ¬ inputBufferSize < s.currentBuffer + s.bytesLeftover := Nat.not_lt.mpr hs.le
    rw [if_neg hzero, if_neg hinside] at hfit ⊢
    have htake := moveLeftover_take hs
    have hmoved := moveLeftover_length hs
    have hlen := pending_length hs
    have hle : s.bytesLeftover ≤ inputBufferSize := by have := hs.le; omega
    have hbuffer : s.moveLeftover.cmdBuffer 0 = s.pending := by
      rw [cmdBuffer, Nat.zero_add]
      exact htake
    simp only [hbuffer] at hfit ⊢
    cases hfind : s.pending.findIdx? (isCrlf val) with
    | some eob =>
        rw [gather_of_found hfind]
        refine follows_request ⟨.found eob, _, _, _⟩ hmoved hle ?_ ?_ (by simp) rfl
          (lt_length_of_findIdx? hfind)
        · rw [hlen, htake]
        · rw [hlen]; exact hle
    | none =>
        by_cases hfull : inputBufferSize - 1 ≤ s.bytesLeftover
        · rw [gather_of_full hfind (by rw [hlen]; exact hfull)]
          have hcond : inputBufferSize - 1 ≤ s.moveLeftover.currentBuffer := hfull
          simp only [if_pos hcond]
          exact ⟨rfl, rfl, hmoved, by rw [hlen, htake], by rw [hlen]; exact hle, by simp, rfl, rfl,
            hlen.symm⟩
        · have hcond : ¬ inputBufferSize - 1 ≤ s.moveLeftover.currentBuffer := hfull
          simp only [hfind, if_neg hcond] at hfit ⊢
          have hloop := fetchLoop_follows reads s.moveLeftover 0 hmoved
            (by rw [show s.moveLeftover.currentBuffer = s.bytesLeftover from rfl, htake]; exact hfind)
            (Nat.lt_of_not_le hcond) hfit
          rwa [show s.moveLeftover.currentBuffer = s.bytesLeftover from rfl, htake] at hloop

theorem Follows.next {stale pos : Nat} {found : Gathered α} {result : Fetched α}
    (h : Follows stale found result) (hverdict : found.verdict = .found pos)
    (hbehind : pos + 2 ≤ found.held.length) :
    result.outcome = .request (found.held.take pos) ∧ result.input.Inside
      ∧ result.input.pending = found.held.drop (pos + 2)
      ∧ result.input.bytesLeftover = found.held.length - (pos + 2) := by
  have hout := h.outcome
  rw [hverdict] at hout
  obtain ⟨houtcome, -, hleft, hcur, hzero⟩ := hout
  have hle := h.held_le
  have hN : inputBufferSize < 2 ^ 64 := by decide
  have hleft' : result.input.bytesLeftover = found.held.length - (pos + 2) := by
    have hinner : sizeSub found.held.length pos = found.held.length - pos :=
      sizeSub_eq_sub (by omega) (by omega)
    rw [hleft, hinner, sizeSub_eq_sub (by omega) (by omega)]
    omega
  by_cases hnone : found.held.length = pos + 2
  · have hbytes : result.input.bytesLeftover = 0 := by omega
    refine ⟨houtcome, ⟨h.size, ?_⟩, ?_, hleft'⟩
    · have := hzero hbytes
      omega
    · rw [pending_eq_nil hbytes, List.drop_of_length_le (by omega)]
  · have hpos : result.input.currentBuffer = pos + 2 := hcur (by omega)
    refine ⟨houtcome, ⟨h.size, by omega⟩, ?_, hleft'⟩
    rw [pending, hpos, hleft', ← List.drop_take, h.held]

theorem Follows.wrapped {stale pos : Nat} {found : Gathered α} {result : Fetched α}
    (h : Follows stale found result) (hverdict : found.verdict = .found pos)
    (hlast : found.held.length = pos + 1) :
    result.outcome = .request (found.held.take pos) ∧ result.input.bytesLeftover = 2 ^ 64 - 1 := by
  have hout := h.outcome
  rw [hverdict] at hout
  obtain ⟨houtcome, -, hleft, -, -⟩ := hout
  have hle := h.held_le
  have hN : inputBufferSize < 2 ^ 64 := by decide
  refine ⟨houtcome, ?_⟩
  have hinner : sizeSub found.held.length pos = 1 := by
    rw [sizeSub_eq_sub (by omega) (by omega)]
    omega
  rw [hleft, hinner]
  rfl

/-- The count of the leftover bytes has wrapped; the next call does not survive it. -/
def Overruns (s : WfdeFtpSessionInput α) : Prop := inputBufferSize < s.bytesLeftover

theorem overruns_of_wrapped {s : WfdeFtpSessionInput α} (h : s.bytesLeftover = 2 ^ 64 - 1) :
    s.Overruns := by
  rw [Overruns, h]
  decide

/-- Such a call moves bytes from outside the buffer. -/
theorem fetchNextCommand_of_overruns {s : WfdeFtpSessionInput α} {reads : List (List α)}
    (hs : s.Overruns) : fetchNextCommand val s reads
      = { outcome := .overrun, input := s, received := [], unread := reads, calls := [] } := by
  unfold Overruns at hs
  unfold fetchNextCommand
  rw [if_neg (by omega), if_pos (by omega)]

end WfdeFtpSessionInput

end Wfde
