import Wfde.Proof.Framing

/-!
# Framing a stream of commands

Successive calls of `FetchNextCommand` give the commands of a stream back exactly when no read ends
between the CR and the LF of a command.
-/

namespace Wfde

open Gather WfdeFtpSessionInput

/-- The input object as it is constructed; the array it holds is not initialised. -/
def WfdeFtpSessionInput.fresh {α : Type} (storage : {b : List α // b.length = inputBufferSize}) :
    WfdeFtpSessionInput α :=
  { inputBuffer := storage.val }

theorem inside_fresh {α : Type} (storage : {b : List α // b.length = inputBufferSize}) :
    (WfdeFtpSessionInput.fresh storage).Inside :=
  ⟨storage.property, Nat.zero_le _⟩

/-- What a client sends for a list of commands. -/
def wire (cmds : List Bytes) : Bytes := cmds.flatMap (· ++ [cr, lf])

/-- A command a client may send: it fits the buffer together with its CRLF. -/
def Sendable (cmd : Bytes) : Prop := cmd.length ≤ inputBufferSize - 2 ∧ cr ∉ cmd ∧ lf ∉ cmd

instance (cmd : Bytes) : Decidable (Sendable cmd) :=
  inferInstanceAs (Decidable (_ ∧ _ ∧ _))

def outcomes {α : Type} (run : List (FetchStep α)) : List (FetchOutcome α) :=
  run.map (·.result.outcome)

theorem isCrlf_eq_false {cmd : Bytes} (hcmd : Sendable cmd) : ∀ c ∈ cmd, isCrlf id c = false := by
  intro c hc
  have hcr : c ≠ cr := fun h => hcmd.2.1 (h ▸ hc)
  have hlf : c ≠ lf := fun h => hcmd.2.2 (h ▸ hc)
  simp [isCrlf, hcr, hlf]

theorem wire_cons (cmd : Bytes) (cmds : List Bytes) :
    wire (cmd :: cmds) = cmd ++ cr :: lf :: wire cmds := by
  simp [wire]

section Run

variable {α : Type} {val : α → UInt8}

theorem outcomes_fetchRun_succ {n : Nat} {s : WfdeFtpSessionInput α} {reads : List (List α)}
    (hout : (fetchNextCommand val s reads).outcome ≠ .overrun) :
    fetchRun val (n + 1) s reads = ⟨s, reads, fetchNextCommand val s reads⟩
      :: fetchRun val n (fetchNextCommand val s reads).input (fetchNextCommand val s reads).unread := by
  cases hcase : (fetchNextCommand val s reads).outcome with
  | overrun => exact absurd hcase hout
  | _ => simp only [fetchRun, hcase]

theorem fetchRun_overrun {n : Nat} {s : WfdeFtpSessionInput α} {reads : List (List α)}
    (hout : (fetchNextCommand val s reads).outcome = .overrun) :
    fetchRun val (n + 1) s reads = [⟨s, reads, fetchNextCommand val s reads⟩] := by
  simp only [fetchRun, hout]

theorem head_mem_fetchRun (n : Nat) (s : WfdeFtpSessionInput α) (reads : List (List α)) :
    ⟨s, reads, fetchNextCommand val s reads⟩ ∈ fetchRun val (n + 1) s reads := by
  by_cases hout : (fetchNextCommand val s reads).outcome = .overrun
  · simp [fetchRun_overrun hout]
  · simp [outcomes_fetchRun_succ hout]

end Run

theorem eq_append_of_past {held later cmd rest : Bytes}
    (hsplit : held ++ later = cmd ++ cr :: lf :: rest) (hpast : cmd.length + 2 ≤ held.length) :
    ∃ tail, held = cmd ++ cr :: lf :: tail ∧ tail ++ later = rest := by
  have hfront : cmd ++ [cr, lf] <+: held := by
    have hall : cmd ++ [cr, lf] <+: cmd ++ cr :: lf :: rest := ⟨rest, by simp⟩
    exact List.prefix_of_prefix_length_le (hsplit ▸ hall) ⟨later, rfl⟩ (by simpa using hpast)
  obtain ⟨tail, rfl⟩ := hfront
  exact ⟨tail, by simp, by simpa using hsplit⟩

theorem getLast?_tail_ne_iff (cmd tail : Bytes) :
    tail.getLast? ≠ some cr ↔ (cmd ++ cr :: lf :: tail).getLast? ≠ some cr := by
  rcases List.eq_nil_or_concat tail with rfl | ⟨before, last, rfl⟩
  · have hne : lf ≠ cr := by decide
    simpa using hne
  · have hcons : cmd ++ cr :: lf :: (before.concat last)
        = (cmd ++ cr :: lf :: before) ++ [last] := by simp
    rw [hcons, List.concat_eq_append, List.getLast?_append, List.getLast?_append]
    rfl

theorem eq_concat_of_length {held later cmd rest : Bytes} (hsplit : held ++ later = cmd ++ cr :: rest)
    (hlength : held.length = cmd.length + 1) : held = cmd ++ [cr] := by
  have htake := congrArg (List.take held.length) hsplit
  rw [List.take_left, hlength, List.take_append, List.take_of_length_le (by omega)] at htake
  simpa using htake

/-- What has been received before the last of some reads is inside the command. -/
theorem cr_not_mem_dropLast {pending later cmd rest : Bytes} {taken : List Bytes} (hcr : cr ∉ cmd)
    (hne : taken ≠ []) (hsplit : pending ++ taken.flatten ++ later = cmd ++ rest)
    (hinside : (pending ++ taken.dropLast.flatten).length ≤ cmd.length) :
    cr ∉ pending ++ taken.dropLast.flatten := by
  have hfront : pending ++ taken.dropLast.flatten <+: pending ++ taken.flatten := by
    refine (List.prefix_append_right_inj _).mpr ⟨taken.getLast hne, ?_⟩
    conv_rhs => rw [← List.dropLast_append_getLast hne]
    simp
  have hcmd : pending ++ taken.dropLast.flatten <+: cmd :=
    List.prefix_of_prefix_length_le (hfront.trans ⟨later, hsplit⟩) ⟨rest, rfl⟩ hinside
  exact fun hmem => hcr (hcmd.subset hmem)

section Outcomes

variable {s : WfdeFtpSessionInput UInt8} {reads : List Bytes} {cmd : Bytes} {n : Nat}

theorem outcomes_fetchRun_drained (hs : s.Inside) (hpending : s.pending = [])
    (hfit : ReadsFit (fetchNextCommand id s [])) : outcomes (fetchRun id 1 s []) = [.noInput] := by
  have hsearch : search id s [] = ⟨.exhausted, [], 0, []⟩ := by
    rw [search, hpending]
    exact gather_nil rfl (by decide)
  have hout := (fetchNextCommand_follows hs [] hfit).outcome
  rw [hsearch] at hout
  rw [outcomes_fetchRun_succ (by simp [hout.1])]
  simp [outcomes, fetchRun, hout.1]

/-- Behind a call that has wrapped the count the next one runs over the buffer. -/
theorem outcomes_fetchRun_wrapped
    (hrequest : (fetchNextCommand id s reads).outcome = .request cmd)
    (hwrap : (fetchNextCommand id s reads).input.bytesLeftover = 2 ^ 64 - 1) :
    outcomes (fetchRun id (n + 2) s reads) = [.request cmd, .overrun] := by
  have hover : (fetchNextCommand id (fetchNextCommand id s reads).input
      (fetchNextCommand id s reads).unread).outcome = .overrun := by
    rw [fetchNextCommand_of_overruns (overruns_of_wrapped hwrap)]
  rw [outcomes_fetchRun_succ (by simp [hrequest]), fetchRun_overrun hover]
  simp [outcomes, hrequest, hover]

end Outcomes

/-- Framing from any state whose leftover is inside the buffer, the leftover and the coming reads
being the stream of the commands still to come. -/
theorem fetchRun_frames_from (cmds : List Bytes) (hcmds : ∀ cmd ∈ cmds, Sendable cmd)
    {s : WfdeFtpSessionInput UInt8} (hs : s.Inside) {reads : List Bytes}
    (hreads : ∀ read ∈ reads, read ≠ []) (hwire : s.pending ++ reads.flatten = wire cmds)
    (hfit : ∀ step ∈ fetchRun id (cmds.length + 1) s reads, ReadsFit step.result) :
    outcomes (fetchRun id (cmds.length + 1) s reads) = cmds.map .request ++ [.noInput]
      ↔ s.pending.getLast? ≠ some cr ∧ ∀ read ∈ reads, read.getLast? ≠ some cr := by
  have hN : (2 : Nat) ≤ inputBufferSize := by decide
  induction cmds generalizing s reads with
  | nil =>
      have hnil : s.pending = [] ∧ reads.flatten = [] := by simpa [wire] using hwire
      have hempty : reads = [] := by
        cases reads with
        | nil => rfl
        | cons read reads =>
            exact absurd (by simpa using hnil.2 : read = [] ∧ _).1 (hreads read (by simp))
      subst hempty
      have hdrained := outcomes_fetchRun_drained hs hnil.1 (hfit _ (head_mem_fetchRun 0 s []))
      rw [List.length_nil, Nat.zero_add, hdrained, hnil.1]
      simp
  | cons cmd cmds ih =>
      have hcmd : Sendable cmd := hcmds cmd (by simp)
      have hline := isCrlf_eq_false hcmd
      rw [wire_cons] at hwire
      have hlimit : cmd.length < inputBufferSize - 1 := by
        have hfits := hcmd.1
        omega
      obtain ⟨taken, more, rfl, ⟨n, hgather⟩, hpast, hbefore, hstop⟩ :=
        gather_line hline (by simp [isCrlf]) hlimit hreads 0 hwire
      have hchunks : ∀ chunk ∈ taken, chunk ≠ [] := fun chunk hchunk =>
        hreads chunk (List.mem_append_left _ hchunk)
      set held := s.pending ++ taken.flatten with hheld
      have hsplit : held ++ more.flatten = cmd ++ cr :: lf :: wire cmds := by
        rw [hheld, List.append_assoc, ← List.flatten_append]
        exact hwire
      -- the chunks before the last one taken stay inside the command
      have hclean : taken ≠ [] → cr ∉ s.pending ++ taken.dropLast.flatten := by
        intro hne
        have hle : s.pending.length ≤ cmd.length := by
          by_contra hgt
          exact hne (hstop (Nat.lt_of_not_le hgt))
        exact cr_not_mem_dropLast hcmd.2.1 hne hsplit (hbefore hle)
      have hends := getLast?_append_flatten_ne_iff hchunks hclean
      have hsearch : search id s (taken ++ more) = ⟨.found cmd.length, held, n, more⟩ := hgather
      have hfollows := fetchNextCommand_follows hs (taken ++ more)
        (hfit _ (head_mem_fetchRun (cmds.length + 1) s (taken ++ more)))
      rw [hsearch] at hfollows
      simp only [List.length_cons] at hfit ⊢
      by_cases hlast : held.length = cmd.length + 1
      · -- the CR is the last byte received: the count wraps and the next call runs over the buffer
        have hheldEq : held = cmd ++ [cr] := eq_concat_of_length hsplit hlast
        obtain ⟨hreq, hwrap⟩ := hfollows.wrapped rfl hlast
        rw [outcomes_fetchRun_wrapped hreq hwrap]
        have hright : held.getLast? = some cr := by simp [hheldEq]
        constructor
        · intro hrun
          cases cmds <;> simp at hrun
        · rintro ⟨hpending, hall⟩
          exact absurd hright (hends.mpr ⟨hpending, fun chunk hchunk =>
            hall chunk (List.mem_append_left _ hchunk)⟩)
      · have hpast' : cmd.length + 2 ≤ held.length := by omega
        obtain ⟨hreq, hinside, hpending, -⟩ := hfollows.next rfl hpast'
        obtain ⟨tail, hheldEq, htail⟩ := eq_append_of_past hsplit hpast'
        have hdrop : held.drop (cmd.length + 2) = tail := by
          rw [hheldEq, show cmd.length + 2 = (cmd ++ [cr, lf]).length by simp,
            show cmd ++ cr :: lf :: tail = (cmd ++ [cr, lf]) ++ tail by simp, List.drop_left]
        have htake : held.take cmd.length = cmd := by rw [hheldEq, List.take_left]
        simp only [hdrop] at hpending
        simp only [htake] at hreq
        have hunread : (fetchNextCommand id s (taken ++ more)).unread = more := hfollows.unread
        rw [outcomes_fetchRun_succ (by simp [hreq])] at hfit ⊢
        have hrec := ih (fun c hc => hcmds c (by simp [hc])) hinside
          (fun (read : Bytes) (hread : read ∈ more) => hreads read (List.mem_append_right _ hread))
          (by rw [hpending]; exact htail)
          (fun step hstep => hfit step (List.mem_cons_of_mem _ (by rwa [hunread])))
        have hhead : outcomes (⟨s, taken ++ more, fetchNextCommand id s (taken ++ more)⟩
              :: fetchRun id (cmds.length + 1) (fetchNextCommand id s (taken ++ more)).input
                (fetchNextCommand id s (taken ++ more)).unread)
              = (cmd :: cmds).map .request ++ [.noInput]
            ↔ outcomes (fetchRun id (cmds.length + 1)
                (fetchNextCommand id s (taken ++ more)).input more)
              = cmds.map .request ++ [.noInput] := by
          simp [outcomes, hreq, hunread]
        refine hhead.trans (hrec.trans ?_)
        rw [hpending, getLast?_tail_ne_iff cmd tail, ← hheldEq, hends]
        simp only [List.mem_append, or_imp, forall_and, and_assoc]

/-- `n + 1` calls return the `n` commands of a stream and then throw `NoInputException`. -/
def Framed (storage : {b : Bytes // b.length = inputBufferSize}) (cmds reads : List Bytes) : Prop :=
  outcomes (fetchRun id (cmds.length + 1) (fresh storage) reads) = cmds.map .request ++ [.noInput]

/-- **Command framing.** Successive calls of `FetchNextCommand` return the commands of the stream in
order and then report the end of the input if and only if no read ends in a CR, that is between the
CR and the LF of a command. -/
theorem fetchNextCommand_frames_iff (storage : {b : Bytes // b.length = inputBufferSize})
    (cmds reads : List Bytes) (hcmds : ∀ cmd ∈ cmds, Sendable cmd)
    (hreads : ∀ read ∈ reads, read ≠ []) (hwire : reads.flatten = wire cmds)
    (hfit : ∀ step ∈ fetchRun id (cmds.length + 1) (fresh storage) reads, ReadsFit step.result) :
    Framed storage cmds reads ↔ ∀ read ∈ reads, read.getLast? ≠ some cr := by
  have hpending : (fresh storage).pending = [] := pending_eq_nil rfl
  have hfrom := fetchRun_frames_from cmds hcmds (inside_fresh storage) hreads
    (by rw [hpending]; exact hwire) hfit
  rw [Framed, hfrom, hpending]
  simp

/-- The array all zero. -/
def blankStorage : {b : Bytes // b.length = inputBufferSize} :=
  ⟨List.replicate inputBufferSize 0, List.length_replicate⟩

theorem framed_two_reads :
    Framed blankStorage [bytes "SYST", bytes "TEST IT"]
      [bytes "SYST" ++ [cr, lf] ++ bytes "TEST ", bytes "IT" ++ [cr, lf]] :=
  (fetchNextCommand_frames_iff blankStorage _ _ (by decide) (by decide) (by decide)
    (by decide)).mpr (by decide)

theorem not_framed_split_crlf :
    let cmds := [bytes "SYST"]
    let reads := [bytes "SYST" ++ [cr], [lf]]
    (∀ cmd ∈ cmds, Sendable cmd) ∧ (∀ read ∈ reads, read ≠ []) ∧ reads.flatten = wire cmds
      ∧ (∀ step ∈ fetchRun id (cmds.length + 1) (fresh blankStorage) reads, ReadsFit step.result)
      ∧ outcomes (fetchRun id (cmds.length + 1) (fresh blankStorage) reads)
        = [.request (bytes "SYST"), .overrun]
      ∧ ¬ Framed blankStorage cmds reads := by
  refine ⟨by decide, by decide, by decide, by decide, by decide, ?_⟩
  unfold Framed
  decide

end Wfde
