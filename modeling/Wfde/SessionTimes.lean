import Mathlib.Data.BitVec

/-!
# The times of a session

What `WfdeSession` and `WfdeFtpSession` note of the clock: `Touch`, `TransferTouch` and
`OnHousekeeping`. A time is the nanoseconds of a reading of `steady_clock`.
-/

namespace Wfde

/-- `last_touch_time_` is in `WfdeFtpSession`, the others are in `WfdeSession`. The atomic
`uint_fast32_t` has 64 bits. -/
structure SessionTimes where
  lastActivityTime : Int
  lastActivityCachedTime : Int
  cachedIdleTime : BitVec 64
  lastTouchTime : Int

def second : Int := 1000000000

/-- The count of `duration_cast<seconds>` -/
def seconds (duration : Int) : Int := duration.tdiv second

/-- In seconds -/
def transferTouchInterval : Int := 5

namespace SessionTimes

def touch (now : Int) (times : SessionTimes) : SessionTimes :=
  let cachedDuration := now - times.lastActivityCachedTime
  let times := { times with lastActivityTime := now }
  if seconds cachedDuration ≠ 0 then
    { times with lastActivityCachedTime := now, cachedIdleTime := 0 }
  else times

def touchIsDue (now : Int) (times : SessionTimes) : Bool :=
  transferTouchInterval < seconds (now - times.lastTouchTime)

/-- `Touch` reads the clock by itself, `later`. -/
def transferTouch (now later : Int) (times : SessionTimes) : SessionTimes :=
  if times.touchIsDue now then { times.touch later with lastTouchTime := now } else times

/-- The count is cast to an `int`, and that is converted to the type of `cached_idle_time_`. -/
def updateIdleTime (now : Int) (times : SessionTimes) : SessionTimes :=
  { times with
    cachedIdleTime := (BitVec.ofInt 32 (seconds (now - times.lastActivityTime))).signExtend 64 }

/-- The times after the check, and whether the session may go on. -/
def onHousekeeping (sessionTimeOutSecs : BitVec 32) (now : Int) (times : SessionTimes) :
    SessionTimes × Bool :=
  let times := times.updateIdleTime now
  (times, !decide (sessionTimeOutSecs.setWidth 64 < times.cachedIdleTime))

@[simp]
theorem lastActivityTime_touch (now : Int) (times : SessionTimes) :
    (times.touch now).lastActivityTime = now := by
  dsimp only [touch]
  split <;> rfl

@[simp]
theorem lastTouchTime_touch (now : Int) (times : SessionTimes) :
    (times.touch now).lastTouchTime = times.lastTouchTime := by
  dsimp only [touch]
  split <;> rfl

theorem transferTouch_of_due {now later : Int} {times : SessionTimes}
    (h : times.touchIsDue now = true) :
    times.transferTouch now later = { times.touch later with lastTouchTime := now } := by
  rw [transferTouch, if_pos h]

theorem transferTouch_of_not_due {now later : Int} {times : SessionTimes}
    (h : times.touchIsDue now = false) : times.transferTouch now later = times := by
  rw [transferTouch, h, if_neg Bool.false_ne_true]

end SessionTimes

/-- What reads the clock: a command that has been carried out, a read or a write of a transfer that
has succeeded, and the timer of the housekeeping. -/
inductive Moment where
  | command (now : Int)
  | progress (now later : Int)
  | housekeeping (now : Int)

def SessionTimes.step (sessionTimeOutSecs : BitVec 32) (times : SessionTimes) :
    Moment → SessionTimes
  | .command now => times.touch now
  | .progress now later => times.transferTouch now later
  | .housekeeping now => (times.onHousekeeping sessionTimeOutSecs now).1

end Wfde
