import Mathlib.Tactic.Linarith
import Wfde.Lib.Run
import Wfde.SessionTimes

/-!
# Timing a session out

The activity that a session has noted is never later than its last move, and less than the interval
of the touches and a second earlier. What the housekeeping makes of it is right as long as the
seconds of idleness fit in an `int`.
-/

namespace Wfde

theorem second_pos : 0 < second := by decide

theorem seconds_le_iff {duration : Int} (h : 0 ≤ duration) {n : Int} :
    seconds duration ≤ n ↔ duration < (n + 1) * second := by
  rw [seconds, Int.tdiv_eq_ediv_of_nonneg h, ← Int.lt_add_one_iff,
    Int.ediv_lt_iff_lt_mul second_pos]

theorem seconds_nonneg {duration : Int} (h : 0 ≤ duration) : 0 ≤ seconds duration :=
  Int.tdiv_nonneg h second_pos.le

/-- An `int` that is not negative survives the conversion. -/
theorem toNat_signExtend_ofInt {n : Int} (h : 0 ≤ n) (hn : n < 2 ^ 31) :
    (((BitVec.ofInt 32 n).signExtend 64).toNat : Int) = n := by
  have hint : (BitVec.ofInt 32 n).toInt = n := by
    rw [BitVec.toInt_ofInt, Int.bmod_eq_of_le (by omega) (by omega)]
  rw [BitVec.signExtend, hint, BitVec.toNat_ofInt, Int.toNat_of_nonneg (by omega)]
  exact Int.emod_eq_of_lt h (by omega)

namespace SessionTimes

theorem onHousekeeping_eq_true_iff {sessionTimeOutSecs : BitVec 32} {now : Int}
    {times : SessionTimes} (h : times.lastActivityTime ≤ now)
    (hshort : seconds (now - times.lastActivityTime) < 2 ^ 31) :
    (times.onHousekeeping sessionTimeOutSecs now).2 = true
      ↔ now - times.lastActivityTime < (sessionTimeOutSecs.toNat + 1) * second := by
  have hidle := toNat_signExtend_ofInt (seconds_nonneg (Int.sub_nonneg.mpr h)) hshort
  rw [← seconds_le_iff (Int.sub_nonneg.mpr h), onHousekeeping, Bool.not_eq_true',
    decide_eq_false_iff_not, BitVec.not_lt, BitVec.le_def,
    BitVec.toNat_setWidth_of_le (by decide)]
  dsimp only [updateIdleTime]
  omega

end SessionTimes

/-- A session whose clock is looked at: the last reading of all, and the last one that a command or a
read or write of a transfer has taken. -/
structure Watch where
  times : SessionTimes
  clock : Int
  lastMove : Int

namespace Watch

/-- The constructor touches the session. What else there is may be left from before. -/
def start (opened : Int) (left : SessionTimes) : Watch := ⟨left.touch opened, opened, opened⟩

def step (sessionTimeOutSecs : BitVec 32) (watch : Watch) (moment : Moment) : Watch :=
  let times := watch.times.step sessionTimeOutSecs moment
  match moment with
  | .command now => ⟨times, now, now⟩
  | .progress now later =>
      let last := if watch.times.touchIsDue now then later else now
      ⟨times, last, last⟩
  | .housekeeping now => ⟨times, now, watch.lastMove⟩

/-- The clock does not go back. -/
def InOrder (watch : Watch) : Moment → Prop
  | .command now => watch.clock ≤ now
  | .progress now later => watch.clock ≤ now ∧ now ≤ later
  | .housekeeping now => watch.clock ≤ now

/-- At a check, the seconds since the session was active are an `int`. -/
def IsShort (watch : Watch) : Moment → Prop
  | .housekeeping now => seconds (now - watch.times.lastActivityTime) < 2 ^ 31
  | _ => True

instance (watch : Watch) : DecidablePred watch.InOrder
  | .command now => inferInstanceAs (Decidable (watch.clock ≤ now))
  | .progress now later => inferInstanceAs (Decidable (watch.clock ≤ now ∧ now ≤ later))
  | .housekeeping now => inferInstanceAs (Decidable (watch.clock ≤ now))

instance (watch : Watch) : DecidablePred watch.IsShort
  | .command _ => inferInstanceAs (Decidable True)
  | .progress _ _ => inferInstanceAs (Decidable True)
  | .housekeeping now =>
      inferInstanceAs (Decidable (seconds (now - watch.times.lastActivityTime) < 2 ^ 31))

/-- A check that comes at most `apart` after the last move, as every check does between two moves
that are at most `apart` from each other, lets the session go on, if `apart` and six seconds are not
more than the time-out. One that comes more than the time-out and a second after the last move does
not. -/
def IsTimely (sessionTimeOutSecs : BitVec 32) (watch : Watch) : Moment → Prop
  | .housekeeping now =>
      (∀ apart, apart + 6 * second ≤ sessionTimeOutSecs.toNat * second →
        now ≤ watch.lastMove + apart →
        (watch.times.onHousekeeping sessionTimeOutSecs now).2 = true)
      ∧ (watch.lastMove + (sessionTimeOutSecs.toNat + 1) * second < now →
        (watch.times.onHousekeeping sessionTimeOutSecs now).2 = false)
  | _ => True

/-- The activity that is noted comes with the last move or less than six seconds before it, and no
touch of a transfer is later than it. -/
structure Follows (watch : Watch) : Prop where
  lastTouch : watch.times.lastTouchTime ≤ watch.times.lastActivityTime
  lastActivity : watch.times.lastActivityTime ≤ watch.lastMove
  lastMove : watch.lastMove ≤ watch.clock
  lag : watch.lastMove < watch.times.lastActivityTime + 6 * second

theorem follows_start {opened : Int} {left : SessionTimes} (h : left.lastTouchTime ≤ opened) :
    (start opened left).Follows where
  lastTouch := by
    rw [start, SessionTimes.lastTouchTime_touch, SessionTimes.lastActivityTime_touch]
    exact h
  lastActivity := (SessionTimes.lastActivityTime_touch opened left).le
  lastMove := le_rfl
  lag := by
    rw [start, SessionTimes.lastActivityTime_touch]
    exact lt_add_of_pos_right opened (by decide)

/-- What is not due has been touched less than six seconds ago. -/
theorem Follows.lag_of_not_due {watch : Watch} (hwatch : watch.Follows) {now : Int}
    (h : watch.clock ≤ now) (hdue : watch.times.touchIsDue now = false) :
    now < watch.times.lastActivityTime + 6 * second := by
  have htouch : watch.times.lastTouchTime ≤ now :=
    hwatch.lastTouch.trans (hwatch.lastActivity.trans (hwatch.lastMove.trans h))
  have hseconds : seconds (now - watch.times.lastTouchTime) ≤ 5 :=
    Int.not_lt.mp (of_decide_eq_false hdue)
  have hpassed := (seconds_le_iff (Int.sub_nonneg.mpr htouch)).mp hseconds
  have hactivity := hwatch.lastTouch
  linarith

theorem follows_step {sessionTimeOutSecs : BitVec 32} {watch : Watch} {moment : Moment}
    (h : watch.InOrder moment) (hwatch : watch.Follows) :
    (watch.step sessionTimeOutSecs moment).Follows := by
  have hactivity := hwatch.lastActivity.trans hwatch.lastMove
  cases moment with
  | command now =>
      refine ⟨?_, ?_, le_rfl, ?_⟩
      all_goals simp only [step, SessionTimes.step, SessionTimes.lastTouchTime_touch,
        SessionTimes.lastActivityTime_touch]
      · exact hwatch.lastTouch.trans (hactivity.trans h)
      · exact le_rfl
      · exact lt_add_of_pos_right now (by decide)
  | progress now later =>
      cases hdue : watch.times.touchIsDue now with
      | true =>
          refine ⟨?_, ?_, le_rfl, ?_⟩
          all_goals simp only [step, SessionTimes.step, hdue, if_true,
            SessionTimes.transferTouch_of_due hdue, SessionTimes.lastActivityTime_touch]
          · exact h.2
          · exact le_rfl
          · exact lt_add_of_pos_right later (by decide)
      | false =>
          refine ⟨?_, ?_, le_rfl, ?_⟩
          all_goals simp only [step, SessionTimes.step, hdue, Bool.false_eq_true, if_false,
            SessionTimes.transferTouch_of_not_due hdue]
          · exact hwatch.lastTouch
          · exact hactivity.trans h.1
          · exact hwatch.lag_of_not_due h.1 hdue
  | housekeeping now =>
      exact ⟨hwatch.lastTouch, hwatch.lastActivity, hwatch.lastMove.trans h, hwatch.lag⟩

theorem isTimely_of_isShort {sessionTimeOutSecs : BitVec 32} {watch : Watch} {moment : Moment}
    (h : watch.InOrder moment) (hshort : watch.IsShort moment) (hwatch : watch.Follows) :
    watch.IsTimely sessionTimeOutSecs moment := by
  cases moment with
  | command | progress => trivial
  | housekeeping now =>
      have hnow := hwatch.lastActivity.trans (hwatch.lastMove.trans h)
      have hcheck : (watch.times.onHousekeeping sessionTimeOutSecs now).2 = true ↔ _ :=
        SessionTimes.onHousekeeping_eq_true_iff hnow hshort
      have hlag := hwatch.lag
      have hactivity := hwatch.lastActivity
      have hsecond := second_pos
      refine ⟨fun apart hapart hsoon => hcheck.mpr ?_, fun hlate => ?_⟩
      · linarith
      · rw [← Bool.not_eq_true, hcheck]
        linarith

/-- A session that keeps moving is not timed out, and one that does not is. -/
theorem isTimely_along (sessionTimeOutSecs : BitVec 32) {opened : Int} {left : SessionTimes}
    (hleft : left.lastTouchTime ≤ opened) {moments : List Moment}
    (h : Machine.Along (step sessionTimeOutSecs)
      (fun watch moment => watch.InOrder moment ∧ watch.IsShort moment)
      (start opened left) moments) :
    Machine.Along (step sessionTimeOutSecs) (IsTimely sessionTimeOutSecs)
      (start opened left) moments :=
  h.imp _ Follows (fun _ _ hmoment hwatch => follows_step hmoment.1 hwatch)
    (fun _ _ hmoment hwatch => isTimely_of_isShort hmoment.1 hmoment.2 hwatch)
    (follows_start hleft)

/-- A transfer that moves every three seconds, with a time-out of nine, and then stops. -/
theorem isTimely_along_stalled :
    Machine.Along (step 9) (IsTimely 9) (start (10 * second) ⟨0, 0, 0, 0⟩)
      [.command (11 * second), .progress (14 * second) (14 * second),
        .progress (17 * second) (17 * second), .housekeeping (19 * second),
        .progress (20 * second) (21 * second), .housekeeping (24 * second),
        .housekeeping (32 * second)] :=
  isTimely_along 9 (by decide) (by decide)

/-- 2^32 seconds without a move are none. -/
theorem not_isTimely_wrapped :
    Machine.Along (step 300) InOrder (start 0 ⟨0, 0, 0, 0⟩) [.housekeeping (2 ^ 32 * second)]
      ∧ ¬ Machine.Along (step 300) (IsTimely 300) (start 0 ⟨0, 0, 0, 0⟩)
        [.housekeeping (2 ^ 32 * second)] := by
  refine ⟨by decide, fun h => ?_⟩
  have hlate := h.1.2 (by decide)
  revert hlate
  decide

end Watch

end Wfde
