import Spooled.Cron.Expression
import Spooled.Lib.Zone

/-!
# The next run of a cron schedule

`next_run_after_tz` steps through instants, reading the wall clock of the zone,
until every field matches. What it returns is an instant after the reference
whose wall clock matches the fields; for a schedule at fixed times the wall
clock is also past the one of the reference, so that the second pass of a
repeated hour is skipped.
-/

namespace Spooled.Cron

/-! ## Fields of a wall time -/

def secondOf (w : Int) : Int := w / nanos % 60

def minuteOf (w : Int) : Int := w / nanos / 60 % 60

def hourOf (w : Int) : Int := w / nanos / 3600 % 24

def dayOf (w : Int) : Int := w / nanos / 86400

namespace CronSchedule

variable (cron : CronSchedule) (zone : Zone)

/-- The date fields match: with both day fields restricted one of them is enough. Sunday
is both 0 and 7. -/
def matchesDate (w : Int) : Bool :=
  let (month, day) := civilOf (dayOf w)
  let weekday := weekdayOf (dayOf w)
  let domMatch := cron.dayOfMonth.matchesValue day
  let dowMatch := cron.dayOfWeek.matchesValue weekday ||
    (weekday == 0 && cron.dayOfWeek.matchesValue 7)
  let dayMatches :=
    if cron.dayOfMonth.restricted && cron.dayOfWeek.restricted then domMatch || dowMatch
    else domMatch && dowMatch
  dayMatches && cron.month.matchesValue month

def matchesTime (w : Int) : Bool :=
  cron.second.matchesValue (secondOf w).toNat && cron.minute.matchesValue (minuteOf w).toNat &&
    cron.hour.matchesValue (hourOf w).toNat

/-- Every field of the schedule matches the wall clock of the zone at `t`. -/
def matchesAt (t : Int) : Bool :=
  cron.matchesDate (zone.wall t) && cron.matchesTime (zone.wall t)

/-! ## The search -/

/-- Seconds to skip from a wall time of a matching date: to the next hour, minute or second. -/
def stepFrom (w : Int) : Int :=
  let toHour := 3600 - minuteOf w * 60 - secondOf w
  let minuteMatches := cron.minute.matchesValue (minuteOf w).toNat
  if !minuteMatches && !cron.hour.matchesValue (hourOf w).toNat then toHour
  else if !minuteMatches then 60 - secondOf w
  else if !cron.second.matchesValue (secondOf w).toNat then 1
  else toHour

/-- `until_next_local_midnight`, in nanoseconds. A midnight that the zone skips is taken
to be 24 hours after the last one. -/
def untilNextLocalMidnight (current : Int) : Int :=
  let w := zone.wall current
  match zone.earliest (nanos * (86400 * (dayOf w + 1))) with
  | some target => target - current
  | none => nanos * (86400 - w / nanos % 86400)

/-- One second after the reference, cut to its second. The cut goes through the wall clock,
so a repeated wall time, which two instants show, is left as it is. -/
def startFrom (after : Int) : Int :=
  let current := after + nanos
  (zone.single (zone.wall current - zone.wall current % nanos)).getD current

/-- The loop of `next_run_after_tz`, with the iterations left. -/
def search (cron : CronSchedule) (zone : Zone) (after : Int) : Nat → Int → Option Int
  | 0, _ => none
  | iterations + 1, current =>
    let w := zone.wall current
    -- in the repeat of a fall-back hour: jump past the reference's wall clock
    if !cron.intervalLike && w ≤ zone.wall after then
      search cron zone after iterations (current + (zone.wall after - w + nanos))
    else if !cron.matchesDate w then
      search cron zone after iterations (current + max (untilNextLocalMidnight zone current) nanos)
    else if cron.matchesTime w then some current
    else search cron zone after iterations (current + max (nanos * cron.stepFrom w) nanos)

/-- `next_run_after_tz`. -/
def nextRunAfterTz (after : Int) : Option Int :=
  if cron.hasReachableDate then search cron zone after 525600 (startFrom zone after) else none

/-- The loop of `next_run_after_clock`. -/
def clockLoop (cron : CronSchedule) (zone : Zone) (at' : Int) : Nat → Int → Option Int
  | 0, _ => none
  | tries + 1, cursor =>
    match cron.nextRunAfterTz zone cursor with
    | none => none
    | some candidate =>
      if at' < candidate then some candidate
      else clockLoop cron zone at' tries (candidate + 1000000)

end CronSchedule

/-- `next_run_after_clock`. -/
def nextRunAfterClock (cron : Option CronSchedule) (zone : Zone) (at' : Int) : Option Int :=
  cron.bind fun cron => cron.clockLoop zone at' 128 at'

/-! ## What the search keeps -/

/-- After the reference, and with its fraction of a second or none. -/
def Aligned (after current : Int) : Prop :=
  after < current ∧ (current % nanos = 0 ∨ current % nanos = after % nanos)

namespace Aligned

variable {zone : Zone} {after current : Int}

theorem start (zone : Zone) (after : Int) :
    Aligned after (CronSchedule.startFrom zone after) := by
  unfold CronSchedule.startFrom
  simp only
  cases h : zone.single (zone.wall (after + nanos) - zone.wall (after + nanos) % nanos) with
  | none =>
    show Aligned after (after + nanos)
    unfold Aligned nanos
    omega
  | some u =>
    show Aligned after u
    rw [Zone.eq_of_single h]
    unfold Aligned nanos
    omega

theorem jump (h : Aligned after current) (hback : zone.wall current ≤ zone.wall after) :
    Aligned after (current + (zone.wall after - zone.wall current + nanos)) := by
  have hc := zone.wall_emod current
  have ha := zone.wall_emod after
  unfold Aligned at *
  unfold nanos at *
  omega

theorem forward (h : Aligned after current) (seconds : Int) :
    Aligned after (current + max (nanos * seconds) nanos) := by
  unfold Aligned at *
  unfold nanos at *
  omega

theorem midnight (h : Aligned after current) :
    Aligned after (current + max (CronSchedule.untilNextLocalMidnight zone current) nanos) := by
  unfold CronSchedule.untilNextLocalMidnight
  simp only
  split
  · rename_i target htarget
    -- midnight is a whole second of the wall clock, hence of the instant
    have hwall : zone.wall target = nanos * (86400 * (dayOf (zone.wall current) + 1)) :=
      ((zone.earliest_iff _ _).1 htarget).1
    have hfrac := zone.wall_emod target
    rw [hwall] at hfrac
    unfold Aligned at *
    unfold nanos at *
    omega
  · exact h.forward _

end Aligned

namespace CronSchedule

variable {cron : CronSchedule} {zone : Zone} {after t : Int}

/-- **The search returns an instant that matches**, after the reference, and for a fixed-time
schedule with a later wall clock. -/
theorem search_spec {n : Nat} {current : Int} (h : search cron zone after n current = some t)
    (hcurrent : Aligned after current) :
    cron.matchesAt zone t = true ∧ Aligned after t ∧
      (cron.intervalLike = false → zone.wall after < zone.wall t) := by
  induction n generalizing current with
  | zero => cases h
  | succ n ih =>
    unfold search at h
    simp only at h
    split at h
    · rename_i hback
      simp only [Bool.and_eq_true, decide_eq_true_eq] at hback
      exact ih h (hcurrent.jump hback.2)
    rename_i hback
    split at h
    · exact ih h hcurrent.midnight
    rename_i hdate
    split at h
    · rename_i htime
      obtain rfl : current = t := Option.some.inj h
      have hdate : cron.matchesDate (zone.wall current) = true := by simpa using hdate
      refine ⟨Bool.and_eq_true_iff.2 ⟨hdate, htime⟩, hcurrent, fun hfixed => ?_⟩
      simp only [hfixed, Bool.not_false, Bool.true_and, decide_eq_true_eq, not_le] at hback
      exact hback
    · exact ih h (hcurrent.forward _)

theorem nextRunAfterTz_spec (h : cron.nextRunAfterTz zone after = some t) :
    cron.matchesAt zone t = true ∧ after < t ∧
      (cron.intervalLike = false → zone.wallSecond after < zone.wallSecond t) := by
  unfold nextRunAfterTz at h
  split at h
  · obtain ⟨hmatch, haligned, hwall⟩ := search_spec h (Aligned.start zone after)
    exact ⟨hmatch, haligned.1, fun hfixed => Zone.wallSecond_lt (hwall hfixed) haligned.2⟩
  · cases h

theorem clockLoop_succ (cron : CronSchedule) (zone : Zone) (at' : Int) (n : Nat) :
    cron.clockLoop zone at' (n + 1) at' = cron.nextRunAfterTz zone at' := by
  unfold clockLoop
  cases h : cron.nextRunAfterTz zone at' with
  | none => rfl
  | some candidate => exact if_pos (nextRunAfterTz_spec h).2.1

end CronSchedule

/-- `next_run_after_clock` is the search from the clock. -/
theorem nextRunAfterClock_eq (cron : Option CronSchedule) (zone : Zone) (at' : Int) :
    nextRunAfterClock cron zone at' = cron.bind fun cron => cron.nextRunAfterTz zone at' := by
  unfold nextRunAfterClock
  congr 1
  funext cron
  exact cron.clockLoop_succ zone at' 127

end Spooled.Cron
