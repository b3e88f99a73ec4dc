import Wfde.Proof.CommandStream

/-!
# The bounds of the control channel buffer

What `FetchNextCommand` keeps of the buffer's bounds, for any bytes a client sends and any cut of
them into reads.
-/

namespace Wfde

open Gather

namespace WfdeFtpSessionInput

variable {α : Type} {val : α → UInt8}

/-- The buffer arithmetic after a call. -/
structure BufferSafe (result : Fetched α) : Prop where
  unwrapped : ∀ line, result.outcome = .request line →
    (result.input.bytesLeftover : Int) = (result.received.length : Int) - line.length - 2
  leftover_le : ∀ line, result.outcome = .request line →
    result.input.bytesLeftover ≤ result.received.length - line.length
  inside : result.input.currentBuffer + result.input.bytesLeftover ≤ inputBufferSize
  reads_inside : ∀ call ∈ result.calls, call.offset + call.bytes ≤ inputBufferSize

/-- What a call has to receive: one more byte behind the first CR or LF, and when it throws, no more
before its last read than fits the buffer together with the leftover it started with. -/
def EnoughHeld (stale : Nat) (found : Gathered α) : Prop :=
  match found.verdict with
  | .found pos => pos + 2 ≤ found.held.length
  | .full => found.held.length - found.last + stale ≤ inputBufferSize
  | .exhausted => found.held.length + stale ≤ inputBufferSize

instance : ∀ (stale : Nat) (found : Gathered α), Decidable (EnoughHeld stale found)
  | _, ⟨.found _, _, _, _⟩ => inferInstanceAs (Decidable (_ ≤ _))
  | _, ⟨.full, _, _, _⟩ => inferInstanceAs (Decidable (_ ≤ _))
  | _, ⟨.exhausted, _, _, _⟩ => inferInstanceAs (Decidable (_ ≤ _))

def EnoughReceived (val : α → UInt8) (s : WfdeFtpSessionInput α) (reads : List (List α)) : Prop :=
  EnoughHeld s.bytesLeftover (search val s reads)

instance (val : α → UInt8) (s : WfdeFtpSessionInput α) (reads : List (List α)) :
    Decidable (EnoughReceived val s reads) :=
  inferInstanceAs (Decidable (EnoughHeld _ _))

theorem bufferSafe_iff_of_throw {stale kept : Nat} {found : Gathered α} {result : Fetched α}
    (h : Follows stale found result) (hthrow : ∀ line, result.outcome ≠ .request line)
    (hleft : result.input.bytesLeftover = stale) (hcur : result.input.currentBuffer = kept) :
    BufferSafe result ↔ kept + stale ≤ inputBufferSize := by
  constructor
  · intro hsafe
    have hinside := hsafe.inside
    rwa [hleft, hcur] at hinside
  · intro hle
    exact ⟨fun line hline => absurd hline (hthrow line), fun line hline => absurd hline (hthrow line),
      by rw [hleft, hcur]; exact hle, h.calls⟩

theorem bufferSafe_iff_of_request {stale pos : Nat} {found : Gathered α} {result : Fetched α}
    (h : Follows stale found result) (hverdict : found.verdict = .found pos)
    (hpos : pos < found.held.length) : BufferSafe result ↔ pos + 2 ≤ found.held.length := by
  have hline : (found.held.take pos).length = pos := by
    rw [List.length_take, Nat.min_eq_left hpos.le]
  constructor
  · intro hsafe
    by_contra hshort
    obtain ⟨hreq, hwrap⟩ := h.wrapped hverdict (by omega)
    have hexact := hsafe.unwrapped _ hreq
    rw [hwrap, h.received, hline] at hexact
    push_cast at hexact
    omega
  · intro hbehind
    obtain ⟨hreq, hinside, -, hleft⟩ := h.next hverdict hbehind
    have hlen : ∀ line, result.outcome = .request line → line.length = pos := by
      intro line hline'
      obtain rfl : found.held.take pos = line := by simpa using hreq.symm.trans hline'
      exact hline
    refine ⟨fun line hline' => ?_, fun line hline' => ?_, hinside.le, h.calls⟩
    · rw [hleft, h.received, hlen line hline']
      omega
    · rw [hleft, h.received, hlen line hline']
      omega

/-- The bounds hold after a call exactly when it received enough. -/
theorem bufferSafe_iff {s : WfdeFtpSessionInput α} (hs : s.Inside) (reads : List (List α))
    (hfit : ReadsFit (fetchNextCommand val s reads)) :
    BufferSafe (fetchNextCommand val s reads) ↔ EnoughReceived val s reads := by
  have hfollows := fetchNextCommand_follows hs reads hfit
  unfold EnoughReceived
  generalize search val s reads = found at hfollows ⊢
  have hout := hfollows.outcome
  obtain ⟨verdict, held, last, rest⟩ := found
  cases verdict with
  | found pos => exact bufferSafe_iff_of_request hfollows rfl hout.2.1
  | full => exact bufferSafe_iff_of_throw hfollows (by simp [hout.1]) hout.2.1 hout.2.2
  | exhausted => exact bufferSafe_iff_of_throw hfollows (by simp [hout.1]) hout.2.1 hout.2.2

theorem outcome_ne_overrun {s : WfdeFtpSessionInput α} (hs : s.Inside) (reads : List (List α))
    (hfit : ReadsFit (fetchNextCommand val s reads)) :
    (fetchNextCommand val s reads).outcome ≠ .overrun := by
  have hout := (fetchNextCommand_follows hs reads hfit).outcome
  split at hout <;> simp [hout.1]

theorem fetchRun_bufferSafe_from (n : Nat) {s : WfdeFtpSessionInput α} (hs : s.Inside)
    {reads : List (List α)} (hfit : ∀ step ∈ fetchRun val n s reads, ReadsFit step.result) :
    (∀ step ∈ fetchRun val n s reads, BufferSafe step.result)
      ↔ ∀ step ∈ fetchRun val n s reads, EnoughReceived val step.before step.reads := by
  induction n generalizing s reads with
  | zero => simp [fetchRun]
  | succ n ih =>
      have hhead := hfit _ (head_mem_fetchRun n s reads)
      have hstep := bufferSafe_iff hs reads hhead
      rw [outcomes_fetchRun_succ (outcome_ne_overrun hs reads hhead)] at hfit ⊢
      simp only [List.mem_cons, forall_eq_or_imp] at hfit ⊢
      by_cases hsafe : BufferSafe (fetchNextCommand val s reads)
      · have hnext : (fetchNextCommand val s reads).input.Inside :=
          ⟨(fetchNextCommand_follows hs reads hhead).size, hsafe.inside⟩
        rw [ih hnext hfit.2, hstep]
      · have hnot : ¬ EnoughReceived val s reads := fun h => hsafe (hstep.mpr h)
        simp [hsafe, hnot]

end WfdeFtpSessionInput

open WfdeFtpSessionInput

/-- **Buffer bounds.** In a run of calls of `FetchNextCommand` the bounds hold after every call if
and only if every call received enough. -/
theorem fetchNextCommand_bufferSafe_iff (storage : {b : Bytes // b.length = inputBufferSize})
    (n : Nat) (reads : List Bytes)
    (hfit : ∀ step ∈ fetchRun id n (fresh storage) reads, ReadsFit step.result) :
    (∀ step ∈ fetchRun id n (fresh storage) reads, BufferSafe step.result)
      ↔ ∀ step ∈ fetchRun id n (fresh storage) reads, EnoughReceived id step.before step.reads :=
  fetchRun_bufferSafe_from n (inside_fresh storage) hfit

/-- Two bare line feeds and an unterminated rest. -/
theorem bufferSafe_bare_lf :
    let run := fetchRun id 3 (fresh blankStorage) [bytes "A" ++ [lf, 0] ++ bytes "B", [lf, 0, 0]]
    run.length = 3 ∧ ∀ step ∈ run, BufferSafe step.result :=
  ⟨by decide, (fetchNextCommand_bufferSafe_iff blankStorage 3 _ (by decide)).mpr (by decide)⟩

/-- A bare LF that is the last byte received makes the count of the leftover wrap. -/
theorem not_bufferSafe_trailing_lf :
    let run := fetchRun id 1 (fresh blankStorage) [bytes "A" ++ [lf]]
    (∀ step ∈ run, ReadsFit step.result)
      ∧ run.map (fun step => step.result.input.bytesLeftover) = [2 ^ 64 - 1]
      ∧ ¬ ∀ step ∈ run, BufferSafe step.result := by
  refine ⟨by decide, by decide, fun hsafe => ?_⟩
  have hinside := (hsafe _ (head_mem_fetchRun 0 _ _)).inside
  exact absurd hinside (by decide)

end Wfde
