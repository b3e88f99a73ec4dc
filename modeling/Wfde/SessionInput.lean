import Wfde.Bytes

/-!
# The control channel input

`WfdeFtpSessionInput` of `WfdeFtpSession.h`: one fixed buffer, a pointer into it and the number of
bytes behind the last request. The functions are generic in the type of a received byte, so that a
byte can carry more than its value; `val` reads the value.
-/

namespace Wfde

/-- `input_buffer_.size()`. -/
def inputBufferSize : Nat := 1024 * 16

/-- The pointer `current_buffer_` is kept as its distance from `&input_buffer_[0]`. -/
structure WfdeFtpSessionInput (α : Type) where
  inputBuffer : List α
  currentBuffer : Nat := 0
  bytesLeftover : Nat := 0

/-- One call of `ReadSome`: where it was to write, how many bytes it was asked for, and how many it
delivered. -/
structure ReadSomeCall where
  offset : Nat
  bytes : Nat
  got : Nat
  deriving DecidableEq

inductive FetchOutcome (α : Type) where
  | request (line : List α)
  | inputTooBig
  | noInput
  /-- A `memmove` was asked for bytes outside `input_buffer_`: the process does not survive it. -/
  | overrun
  deriving DecidableEq

/-- What a call of `FetchNextCommand` leaves behind. `received` is the last `cmd_buffer`. -/
structure Fetched (α : Type) where
  outcome : FetchOutcome α
  input : WfdeFtpSessionInput α
  received : List α
  unread : List (List α)
  calls : List ReadSomeCall

namespace WfdeFtpSessionInput

variable {α : Type} (val : α → UInt8)

/-- The characters of `crlf_`, either of which `find_first_of` stops at. -/
def isCrlf (a : α) : Bool := val a == cr || val a == lf

/-- `memmove(&input_buffer_[0], current_buffer_, bytes_leftover_)`. -/
def moveLeftover (s : WfdeFtpSessionInput α) : WfdeFtpSessionInput α :=
  { s with
    inputBuffer := (s.inputBuffer.drop s.currentBuffer).take s.bytesLeftover
      ++ s.inputBuffer.drop s.bytesLeftover
    currentBuffer := s.bytesLeftover }

/-- `ReadSome` writes what it read at `current_buffer_`. -/
def readSome (s : WfdeFtpSessionInput α) (read : List α) : WfdeFtpSessionInput α :=
  { s with
    inputBuffer := s.inputBuffer.take s.currentBuffer ++ read
      ++ s.inputBuffer.drop (s.currentBuffer + read.length) }

def cmdBuffer (s : WfdeFtpSessionInput α) (bytesRead : Nat) : List α :=
  s.inputBuffer.take (bytesRead + s.currentBuffer)

/-- A request was found: what is behind it, less the two bytes of a CRLF, is left over. -/
def takeRequest (s : WfdeFtpSessionInput α) (received eob : Nat) : WfdeFtpSessionInput α :=
  let left := sizeSub (sizeSub received eob) 2
  { s with
    bytesLeftover := left
    currentBuffer := if left > 0 then eob + 2 else s.currentBuffer }

/-- The loop from a point where it is about to call `ReadSome`. -/
def fetchLoop : WfdeFtpSessionInput α → List (List α) → Fetched α
  | s, [] =>
      { outcome := .noInput, input := s, received := s.cmdBuffer 0, unread := []
        calls := [⟨s.currentBuffer, inputBufferSize - s.currentBuffer, 0⟩] }
  | s, read :: rest =>
      let call : ReadSomeCall :=
        ⟨s.currentBuffer, inputBufferSize - s.currentBuffer, read.length⟩
      if read.isEmpty then
        { outcome := .noInput, input := s, received := s.cmdBuffer 0, unread := rest
          calls := [call] }
      else
        let s := s.readSome read
        let received := s.cmdBuffer read.length
        match received.findIdx? (isCrlf val) with
        | some eob =>
            { outcome := .request (s.inputBuffer.take eob)
              input := s.takeRequest received.length eob
              received, unread := rest, calls := [call] }
        | none =>
            if inputBufferSize - 1 ≤ read.length + s.currentBuffer then
              { outcome := .inputTooBig, input := s, received, unread := rest, calls := [call] }
            else
              let later := fetchLoop { s with currentBuffer := s.currentBuffer + read.length } rest
              { later with calls := call :: later.calls }

/-- `FetchNextCommand`. `reads` is what the coming calls of `ReadSome` deliver; when it runs out
they return 0. -/
def fetchNextCommand (s : WfdeFtpSessionInput α) (reads : List (List α)) : Fetched α :=
  if s.bytesLeftover = 0 then
    fetchLoop val { s with currentBuffer := 0 } reads
  else if inputBufferSize < s.currentBuffer + s.bytesLeftover then
    { outcome := .overrun, input := s, received := [], unread := reads, calls := [] }
  else
    -- `skip_first_read`: the first pass of the loop looks at the leftover only
    let s := s.moveLeftover
    let received := s.cmdBuffer 0
    match received.findIdx? (isCrlf val) with
    | some eob =>
        { outcome := .request (s.inputBuffer.take eob)
          input := s.takeRequest received.length eob
          received, unread := reads, calls := [] }
    | none =>
        if inputBufferSize - 1 ≤ s.currentBuffer then
          { outcome := .inputTooBig, input := s, received, unread := reads, calls := [] }
        else
          fetchLoop val s reads

/-- `ReadSome` delivers at most what it is asked for. -/
def ReadsFit (result : Fetched α) : Prop := ∀ call ∈ result.calls, call.got ≤ call.bytes

instance (result : Fetched α) : Decidable (ReadsFit result) :=
  inferInstanceAs (Decidable (∀ call ∈ result.calls, call.got ≤ call.bytes))

/-- One call in a run: the state it started from, the reads it had before it, and its result. -/
structure FetchStep (α : Type) where
  before : WfdeFtpSessionInput α
  reads : List (List α)
  result : Fetched α

/-- `n` successive calls. A call that runs over the buffer is the last one. -/
def fetchRun : Nat → WfdeFtpSessionInput α → List (List α) → List (FetchStep α)
  | 0, _, _ => []
  | n + 1, s, reads =>
      let result := fetchNextCommand val s reads
      let step : FetchStep α := ⟨s, reads, result⟩
      match result.outcome with
      | .overrun => [step]
      | _ => step :: fetchRun n result.input result.unread

end WfdeFtpSessionInput

end Wfde
