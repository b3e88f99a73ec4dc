import Mathlib.Data.List.Infix
import Mathlib.Logic.Function.Basic

/-!
# Writers that share a stream

Several writers write texts to one stream, piece by piece, and a write reads its text from memory
that the next write takes over. As long as every write begins behind the end of the one before it,
the stream carries the texts one after the other.
-/

structure AsyncWrite (α : Type*) where
  text : List α
  /-- what the memory reads that the write refers to -/
  memory : List α
  sent : Nat := 0

namespace AsyncWrite

variable {α : Type*}

def isSent (write : AsyncWrite α) : Bool := write.text.length ≤ write.sent

/-- What is sent next of at most that many elements. -/
def piece (write : AsyncWrite α) (count : Nat) : List α :=
  (write.memory.drop write.sent).take (min count (write.text.length - write.sent))

def advance (write : AsyncWrite α) (count : Nat) : AsyncWrite α :=
  { write with sent := write.sent + min count (write.text.length - write.sent) }

/-- The memory is given up for another text; `reused` says what each element of it reads then. -/
def giveUp (reused : List α → Nat → α → α) (text : List α) (write : AsyncWrite α) : AsyncWrite α :=
  { write with memory := write.memory.mapIdx (reused text) }

theorem take_sent_of_isSent {write : AsyncWrite α} (h : write.isSent = true) :
    write.text.take write.sent = write.text :=
  List.take_of_length_le (of_decide_eq_true h)

theorem take_sent_append_piece {write : AsyncWrite α} (h : write.memory = write.text)
    (count : Nat) : write.text.take write.sent ++ write.piece count
      = write.text.take (write.advance count).sent := by
  rw [piece, h]
  exact List.take_add.symm

theorem piece_of_isSent {write : AsyncWrite α} (h : write.isSent = true) (count : Nat) :
    write.piece count = [] := by
  have hle : write.text.length ≤ write.sent := of_decide_eq_true h
  rw [piece, Nat.sub_eq_zero_of_le hle, Nat.min_zero, List.take_zero]

theorem advance_of_isSent {write : AsyncWrite α} (h : write.isSent = true) (count : Nat) :
    write.advance count = write := by
  have hle : write.text.length ≤ write.sent := of_decide_eq_true h
  rw [advance, Nat.sub_eq_zero_of_le hle, Nat.min_zero, Nat.add_zero]

end AsyncWrite

structure SharedStream (ι α : Type*) where
  writes : ι → Option (AsyncWrite α) := fun _ => none
  out : List α := []

namespace SharedStream

variable {ι α : Type*} [DecidableEq ι]

def start (reused : List α → Nat → α → α) (who : ι) (text : List α) (stream : SharedStream ι α) :
    SharedStream ι α :=
  { stream with
    writes := Function.update (fun other => (stream.writes other).map (·.giveUp reused text)) who
      (some { text, memory := text }) }

def send (who : ι) (count : Nat) (stream : SharedStream ι α) : SharedStream ι α :=
  match stream.writes who with
  | none => stream
  | some write =>
      { writes := Function.update stream.writes who (some (write.advance count))
        out := stream.out ++ write.piece count }

def finish (who : ι) (stream : SharedStream ι α) : SharedStream ι α :=
  { stream with writes := Function.update stream.writes who none }

section Writes

variable {stream : SharedStream ι α} {who other : ι} {write : AsyncWrite α}

@[simp]
theorem writes_finish_self : (stream.finish who).writes who = none := Function.update_self ..

theorem writes_finish_of_ne (h : other ≠ who) :
    (stream.finish who).writes other = stream.writes other := Function.update_of_ne h ..

theorem finish_of_none (h : stream.writes who = none) : stream.finish who = stream := by
  rw [finish, ← h, Function.update_eq_self]

@[simp]
theorem writes_start_self (reused : List α → Nat → α → α) (text : List α) :
    (stream.start reused who text).writes who = some { text, memory := text } := by
  simp [start]

theorem writes_start_of_ne (reused : List α → Nat → α → α) (text : List α) (h : other ≠ who) :
    (stream.start reused who text).writes other
      = (stream.writes other).map (·.giveUp reused text) := by
  simp [start, h]

theorem send_of_none (h : stream.writes who = none) (count : Nat) :
    stream.send who count = stream := by
  rw [send, h]

theorem send_of_some (h : stream.writes who = some write) (count : Nat) :
    stream.send who count =
      { writes := Function.update stream.writes who (some (write.advance count))
        out := stream.out ++ write.piece count } := by
  rw [send, h]

end Writes

omit [DecidableEq ι] in
/-- All writes but those of one writer have sent their texts. -/
def OthersSent (who : ι) (stream : SharedStream ι α) : Prop :=
  ∀ other write, other ≠ who → stream.writes other = some write → write.isSent = true

omit [DecidableEq ι] in
def AllSent (stream : SharedStream ι α) : Prop :=
  ∀ who write, stream.writes who = some write → write.isSent = true

/-- The stream carries the texts, but for the end of the last one while it is being written or when
its write has failed. -/
inductive Carries (texts : List (List α)) (stream : SharedStream ι α) : Bool → Prop
  | whole (hsent : stream.AllSent) (hout : stream.out = texts.flatten) : Carries texts stream false
  | writing {who write front} (hwrite : stream.writes who = some write)
      (hmemory : write.memory = write.text) (hothers : stream.OthersSent who)
      (htexts : texts = front ++ [write.text])
      (hout : stream.out = front.flatten ++ write.text.take write.sent) : Carries texts stream false
  | broken (hsent : stream.AllSent) (hout : stream.out <+: texts.flatten) :
      Carries texts stream true

section Carries

variable {texts : List (List α)} {stream : SharedStream ι α} {failed : Bool} {who : ι}
  {write : AsyncWrite α}

omit [DecidableEq ι] in
theorem Carries.prefix (h : Carries texts stream failed) : stream.out <+: texts.flatten := by
  cases h with
  | whole _ hout => rw [hout]
  | writing _ _ _ htexts hout =>
      rw [hout, htexts, List.flatten_concat]
      exact (List.prefix_append_right_inj _).mpr (List.take_prefix _ _)
  | broken _ hout => exact hout

omit [DecidableEq ι] in
theorem Carries.memory (h : Carries texts stream failed) (hwrite : stream.writes who = some write)
    (hunsent : write.isSent = false) : write.memory = write.text := by
  have hnot {p : Prop} (hsent : write.isSent = true) : p := by
    rw [hunsent] at hsent
    cases hsent
  cases h with
  | whole hsent _ => exact hnot (hsent _ _ hwrite)
  | broken hsent _ => exact hnot (hsent _ _ hwrite)
  | @writing last _ _ hlast hmemory hothers _ _ =>
      by_cases hwho : who = last
      · rw [hwho, hlast] at hwrite
        exact Option.some.inj hwrite ▸ hmemory
      · exact hnot (hothers _ _ hwho hwrite)

omit [DecidableEq ι] in
theorem Carries.out_of_allSent (h : Carries texts stream false) (hsent : stream.AllSent) :
    stream.out = texts.flatten := by
  cases h with
  | whole _ hout => exact hout
  | writing hwrite _ _ htexts hout =>
      rw [hout, htexts, List.flatten_concat, AsyncWrite.take_sent_of_isSent (hsent _ _ hwrite)]

theorem allSent_finish (h : stream.OthersSent who) : (stream.finish who).AllSent := by
  intro other write hwrite
  by_cases hwho : other = who
  · rw [hwho, writes_finish_self] at hwrite
    cases hwrite
  · rw [writes_finish_of_ne hwho] at hwrite
    exact h other write hwho hwrite

theorem Carries.start (h : Carries texts stream false) (hsent : stream.AllSent)
    (reused : List α → Nat → α → α) (text : List α) :
    Carries (texts ++ [text]) (stream.start reused who text) false := by
  refine .writing (writes_start_self reused text) rfl ?_ rfl ?_
  · intro other write hwho hwrite
    rw [writes_start_of_ne reused text hwho, Option.map_eq_some_iff] at hwrite
    obtain ⟨before, hbefore, rfl⟩ := hwrite
    exact hsent other before hbefore
  · rw [List.take_zero, List.append_nil]
    exact h.out_of_allSent hsent

theorem Carries.send (h : Carries texts stream failed) (who : ι) (count : Nat) :
    Carries texts (stream.send who count) failed := by
  cases hwrite : stream.writes who with
  | none => rwa [send_of_none hwrite]
  | some write =>
      by_cases hdone : write.isSent = true
      · suffices hsame : stream.send who count = stream by rwa [hsame]
        rw [send_of_some hwrite, AsyncWrite.piece_of_isSent hdone,
          AsyncWrite.advance_of_isSent hdone, List.append_nil, ← hwrite, Function.update_eq_self]
      · rw [send_of_some hwrite]
        cases h with
        | whole hsent _ => exact absurd (hsent _ _ hwrite) hdone
        | broken hsent _ => exact absurd (hsent _ _ hwrite) hdone
        | @writing last lastWrite front hlast hmemory hothers htexts hout =>
            obtain rfl : who = last := by
              by_contra hwho
              exact hdone (hothers _ _ hwho hwrite)
            obtain rfl : write = lastWrite := Option.some.inj (hwrite.symm.trans hlast)
            refine .writing (Function.update_self ..) hmemory ?_ htexts ?_
            · intro other left hwho hleft
              have hsame : stream.writes other = some left := by
                rwa [← Function.update_of_ne hwho (some (write.advance count)) stream.writes]
              exact hothers other left hwho hsame
            · change stream.out ++ write.piece count
                = front.flatten ++ write.text.take (write.advance count).sent
              rw [hout, List.append_assoc, AsyncWrite.take_sent_append_piece hmemory]

theorem Carries.finish (h : Carries texts stream failed) (hwrite : stream.writes who = some write)
    (hdone : write.isSent = true) : Carries texts (stream.finish who) failed := by
  have hall (hsent : stream.AllSent) : (stream.finish who).AllSent :=
    allSent_finish fun other write _ hwrite => hsent other write hwrite
  cases h with
  | whole hsent hout => exact .whole (hall hsent) hout
  | broken hsent hout => exact .broken (hall hsent) hout
  | @writing last lastWrite front hlast hmemory hothers htexts hout =>
      by_cases hwho : last = who
      · obtain rfl := hwho
        obtain rfl : write = lastWrite := Option.some.inj (hwrite.symm.trans hlast)
        refine .whole (allSent_finish hothers) ?_
        change stream.out = texts.flatten
        rw [hout, htexts, List.flatten_concat, AsyncWrite.take_sent_of_isSent hdone]
      · have hkept : (stream.finish who).writes last = some lastWrite := by
          rw [writes_finish_of_ne hwho, hlast]
        refine .writing hkept hmemory ?_ htexts hout
        intro other left hother hleft
        by_cases hsame : other = who
        · rw [hsame, writes_finish_self] at hleft
          cases hleft
        · rw [writes_finish_of_ne hsame] at hleft
          exact hothers other left hother hleft

theorem Carries.fail (h : Carries texts stream failed) (hwrite : stream.writes who = some write)
    (hdone : write.isSent = false) : Carries texts (stream.finish who) true := by
  have hnot {p : Prop} (hsent : write.isSent = true) : p := by
    rw [hdone] at hsent
    cases hsent
  refine .broken (allSent_finish ?_) h.prefix
  cases h with
  | whole hsent _ => exact hnot (hsent _ _ hwrite)
  | broken hsent _ => exact hnot (hsent _ _ hwrite)
  | @writing last _ _ _ _ hothers _ _ =>
      by_cases hwho : who = last
      · rw [hwho]
        exact hothers
      · exact hnot (hothers _ _ hwho hwrite)

end Carries

end SharedStream
