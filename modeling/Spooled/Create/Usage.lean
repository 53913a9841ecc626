import Spooled.Store.Row

/-!
# The daily job counter

`organization_usage.jobs_created_today` with the SQL functions that read and
write it. `last_daily_reset` says which day the number is about: on any later
day it counts as 0. The monthly and lifetime columns, which these functions
also write and none of them reads, are left out.
-/

namespace Spooled

/-- A UTC date. -/
abbrev Day := Nat

/-- `CURRENT_DATE`. -/
def dayOf (t : Time) : Day := t / 86400000

/-- A row of `organization_usage`. -/
structure Usage where
  jobsCreatedToday : Int := 0
  lastDailyReset : Day
deriving DecidableEq, Repr

variable (row : Option Usage) (today : Day)

/-- `get_daily_jobs`. -/
def getDailyJobs : Int :=
  match row with
  | none => 0
  | some u => if u.lastDailyReset < today then 0 else u.jobsCreatedToday

/-- `try_increment_daily_jobs`: the row and the returned count, `-1` over the limit. -/
def tryIncrementDailyJobs (count limit : Int) :
    Option Usage × Int :=
  let u := row.getD { lastDailyReset := today }
  let vToday := if u.lastDailyReset < today then 0 else u.jobsCreatedToday
  if 0 ≤ limit ∧ limit < vToday + count then (some u, -1)
  else
    let n := if u.lastDailyReset < today then count else u.jobsCreatedToday + count
    (some { jobsCreatedToday := n, lastDailyReset := today }, n)

/-- `refund_daily_jobs`. -/
def refundDailyJobs (count : Int) : Option Usage × Int :=
  if count ≤ 0 then (row, (row.map (·.jobsCreatedToday)).getD 0)
  else match row with
    | none => (none, 0)
    | some u =>
      let n := if u.lastDailyReset = today then max 0 (u.jobsCreatedToday - count)
        else u.jobsCreatedToday
      (some { u with jobsCreatedToday := n }, n)

/-- `increment_daily_jobs`. -/
def incrementDailyJobs (count : Int) : Option Usage × Int :=
  match row with
  | none => (some { jobsCreatedToday := count, lastDailyReset := today }, count)
  | some u =>
    let n := if u.lastDailyReset < today then count else u.jobsCreatedToday + count
    (some { jobsCreatedToday := n, lastDailyReset := today }, n)

/-- The row is not from a later day. -/
def Usage.upTo (row : Option Usage) : Prop := ∀ u, row = some u → u.lastDailyReset ≤ today

section Spec

variable {row : Option Usage} {today : Day} {count : Int}

/-- **Reserve.** Refused over the limit with the count as it was, else counted. -/
theorem tryIncrementDailyJobs_spec (row : Option Usage) (today : Day) (count limit : Int) :
    (0 ≤ limit ∧ limit < getDailyJobs row today + count ∧
      (tryIncrementDailyJobs row today count limit).2 = -1 ∧
      getDailyJobs (tryIncrementDailyJobs row today count limit).1 today = getDailyJobs row today) ∨
    ((0 ≤ limit → getDailyJobs row today + count ≤ limit) ∧
      (tryIncrementDailyJobs row today count limit).2 = getDailyJobs row today + count ∧
      getDailyJobs (tryIncrementDailyJobs row today count limit).1 today =
        getDailyJobs row today + count) := by
  have hget : getDailyJobs row today =
      if (row.getD { lastDailyReset := today }).lastDailyReset < today then 0
      else (row.getD { lastDailyReset := today }).jobsCreatedToday := by
    cases row with
    | none => simp [getDailyJobs]
    | some u => rfl
  unfold tryIncrementDailyJobs
  rw [hget]
  generalize row.getD { lastDailyReset := today } = u
  dsimp only
  -- the new number is the old one of today plus `count`
  have hnew : (if u.lastDailyReset < today then count else u.jobsCreatedToday + count) =
      (if u.lastDailyReset < today then 0 else u.jobsCreatedToday) + count := by
    split <;> omega
  rw [hnew]
  generalize hv : (if u.lastDailyReset < today then 0 else u.jobsCreatedToday) = v
  by_cases h : 0 ≤ limit ∧ limit < v + count
  · rw [if_pos h]
    exact .inl ⟨h.1, h.2, rfl, hv⟩
  · rw [if_neg h]
    refine .inr ⟨fun hl => by omega, rfl, ?_⟩
    show (if today < today then 0 else v + count) = v + count
    rw [if_neg (lt_irrefl _)]

theorem upTo_tryIncrementDailyJobs (count limit : Int) (h : Usage.upTo today row) :
    Usage.upTo today (tryIncrementDailyJobs row today count limit).1 := by
  have hu : (row.getD { lastDailyReset := today }).lastDailyReset ≤ today := by
    cases row with
    | none => exact le_refl _
    | some u => exact h u rfl
  unfold tryIncrementDailyJobs
  generalize row.getD { lastDailyReset := today } = u at hu
  dsimp only
  generalize (if u.lastDailyReset < today then 0 else u.jobsCreatedToday) = v
  by_cases hc : 0 ≤ limit ∧ limit < v + count
  · rw [if_pos hc]
    rintro u' ⟨⟩
    exact hu
  · rw [if_neg hc]
    rintro u' ⟨⟩
    exact le_refl _

/-- **Refund.** Never below zero. -/
theorem getDailyJobs_refundDailyJobs (h : Usage.upTo today row) (hc : 0 < count)
    (hn : 0 ≤ getDailyJobs row today) :
    getDailyJobs (refundDailyJobs row today count).1 today =
      max 0 (getDailyJobs row today - count) := by
  unfold refundDailyJobs
  rw [if_neg (by omega)]
  cases row with
  | none =>
    show (0 : Int) = max 0 (0 - count)
    omega
  | some u =>
    have hle := h u rfl
    simp only [getDailyJobs]
    by_cases hlt : u.lastDailyReset < today
    · rw [if_pos hlt, if_pos hlt]
      omega
    · rw [if_neg hlt, if_neg hlt, if_pos (Nat.le_antisymm hle (Nat.not_lt.1 hlt))]

theorem upTo_refundDailyJobs (h : Usage.upTo today row) :
    Usage.upTo today (refundDailyJobs row today count).1 := by
  unfold refundDailyJobs
  split
  · exact h
  · cases row with
    | none => exact nofun
    | some u =>
      rintro u' ⟨⟩
      exact h u rfl

/-- **Increment.** No limit. -/
theorem getDailyJobs_incrementDailyJobs :
    getDailyJobs (incrementDailyJobs row today count).1 today = getDailyJobs row today + count := by
  cases row with
  | none => simp [incrementDailyJobs, getDailyJobs]
  | some u =>
    simp only [incrementDailyJobs, getDailyJobs, lt_irrefl, if_false]
    split <;> omega

theorem upTo_incrementDailyJobs : Usage.upTo today (incrementDailyJobs row today count).1 := by
  cases row with
  | none | some =>
    rintro u' ⟨⟩
    exact le_refl _

end Spec

end Spooled
