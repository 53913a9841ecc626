import Spooled.Cron.NextRun
import Spooled.Lib.Run

/-!
# One run for one wall time

The successful passes of the scheduler over one schedule: each creates the job
of the stored occurrence and stores the occurrence that follows the clock of its
commit. The search skips the wall times up to the one of the clock it starts
from, and a pass starts it from its commit, not from the occurrence it executed.
As long as the wall clock of the commit is not behind the occurrence, wall times
of occurrences grow from job to job.
-/

namespace Spooled.Cron

/-- A schedule's `next_run_at`, and the occurrences its jobs were created for, newest first. -/
structure Occurrences where
  nextRunAt : Option Int
  jobs : List Int
  deriving DecidableEq

/-- A pass: the start of its transaction, which the occurrence has to be due at, and the
clock it reads right before its commit. -/
structure Pass where
  start : Int
  commitAt : Int

/-- `SELECT … WHERE next_run_at <= NOW()`, the job, and the next run after the commit clock. -/
def Occurrences.execute (expression : Text) (zone : Zone) (s : Occurrences) (p : Pass) :
    Option Occurrences :=
  match s.nextRunAt with
  | none => none
  | some due =>
    if due ≤ p.start ∧ p.start ≤ p.commitAt then
      some
        { nextRunAt := nextRunAfterClock (parse expression).toOption zone p.commitAt
          jobs := due :: s.jobs }
    else none

/-- The life of a schedule from its creation at any clock on, its passes at any instants. -/
def schedulePasses (expression : Text) (zone : Zone) : Machine where
  State := Occurrences
  Label := Pass
  Init s := s.jobs = [] ∧ ∃ createdAt,
    s.nextRunAt = (parse expression).toOption.bind fun cron => cron.nextRunAfterTz zone createdAt
  next := Occurrences.execute expression zone

/-- The wall clock of the commit is not behind the wall time of the occurrence. -/
def Pass.onTime (zone : Zone) (s : Occurrences) (p : Pass) : Prop :=
  ∀ due, s.nextRunAt = some due → zone.wallSecond due ≤ zone.wallSecond p.commitAt

/-- Jobs are newest first by wall time, and the next occurrence is newer than all of them. -/
structure Occurrences.Growing (zone : Zone) (s : Occurrences) : Prop where
  jobs : (s.jobs.map zone.wallSecond).Pairwise (· > ·)
  next : ∀ due, s.nextRunAt = some due → ∀ j ∈ s.jobs, zone.wallSecond j < zone.wallSecond due

variable {expression : Text} {zone : Zone} {cron : CronSchedule}

theorem Occurrences.Growing.step {s s' : Occurrences} {p : Pass} (hg : s.Growing zone)
    (hparse : parse expression = .ok cron) (hfixed : cron.intervalLike = false)
    (hn : s.execute expression zone p = some s') (hon : p.onTime zone s) : s'.Growing zone := by
  unfold execute at hn
  split at hn
  · cases hn
  rename_i due hdue
  split at hn
  · cases hn
    have hlate := hon due hdue
    refine ⟨List.pairwise_cons.2 ⟨fun w hw => ?_, hg.jobs⟩, fun next hnext j hj => ?_⟩
    · obtain ⟨j, hj, rfl⟩ := List.mem_map.1 hw
      exact hg.next due hdue j hj
    · rw [nextRunAfterClock_eq, hparse] at hnext
      have hpast := (CronSchedule.nextRunAfterTz_spec hnext).2.2 hfixed
      rcases List.mem_cons.1 hj with rfl | hj
      · omega
      · have hold := hg.next due hdue j hj
        omega
  · cases hn

theorem Occurrences.Growing.run {s : Occurrences}
    {h : List ((schedulePasses expression zone).State × (schedulePasses expression zone).Label)}
    (hparse : parse expression = .ok cron) (hfixed : cron.intervalLike = false)
    (hr : (schedulePasses expression zone).Run s h)
    (hon : (schedulePasses expression zone).Steps (fun s p => Pass.onTime zone s p) h) :
    s.Growing zone := by
  refine Machine.Run.invariant (C := fun s p => Pass.onTime zone s p)
    (I := fun s _ => Occurrences.Growing zone s) ?_ ?_ hr hon
  · rintro s ⟨hjobs, -⟩
    exact ⟨by rw [hjobs]; exact List.Pairwise.nil, fun _ _ j hj => by rw [hjobs] at hj; cases hj⟩
  · intro s h p s' _ _ hg hon hn
    exact hg.step hparse hfixed hn hon

/-- **A fixed-time schedule runs once for a wall time.** No two jobs are created for the same
local date and time of day, while no pass commits with the wall clock behind the occurrence
it executes. -/
theorem fixed_time_runs_once (expression : Text) (zone : Zone) (cron : CronSchedule)
    (hparse : parse expression = .ok cron) (hfixed : cron.intervalLike = false) {s : Occurrences}
    {h : List ((schedulePasses expression zone).State × (schedulePasses expression zone).Label)}
    (hr : (schedulePasses expression zone).Run s h)
    (hon : (schedulePasses expression zone).Steps (fun s p => Pass.onTime zone s p) h) :
    (s.jobs.map zone.wallSecond).Nodup :=
  (Occurrences.Growing.run hparse hfixed hr hon).jobs.imp fun h => Int.ne_of_gt h

/-! ## Around a repeated hour -/

/-- A zone that goes back from 02:00 to 01:00 an hour after the epoch. -/
def fallBack : Zone := .ofTransitions 3600 [(3600, 0)]

def halfPastOne : Text := "30 1 * * *".toList

/-- The schedule as created at the epoch: 01:30 of the first pass is half an hour away. -/
def createdAtEpoch : Occurrences := ⟨some (1800 * nanos), []⟩

theorem createdAtEpoch_init : (schedulePasses halfPastOne fallBack).Init createdAtEpoch :=
  ⟨rfl, 0, by decide +kernel⟩

def Pass.isOnTime (zone : Zone) (s : Occurrences) (p : Pass) : Bool :=
  s.nextRunAt.all fun due => zone.wallSecond due ≤ zone.wallSecond p.commitAt

theorem Pass.isOnTime_iff {zone : Zone} {s : Occurrences} {p : Pass} :
    p.isOnTime zone s = true ↔ p.onTime zone s := by
  simp only [isOnTime, onTime, Option.all_eq_true, decide_eq_true_eq]

/-- Executed when it is due, the schedule skips the second pass: its two jobs are of two days. -/
theorem fixed_time_runs_once_skips_repeat : ∃ s h,
    (schedulePasses halfPastOne fallBack).Run s h ∧ s.jobs = [91800 * nanos, 1800 * nanos] ∧
      (s.jobs.map fallBack.wallSecond).Nodup := by
  obtain ⟨s, h, hr, hp⟩ := Machine.Run.of_exec (schedulePasses halfPastOne fallBack)
    [⟨1800 * nanos, 1801 * nanos⟩, ⟨91800 * nanos, 91800 * nanos⟩] createdAtEpoch
    (fun x => decide (x.1.jobs = [91800 * nanos, 1800 * nanos]) &&
      x.2.all fun y => Pass.isOnTime fallBack y.1 y.2)
    createdAtEpoch_init (by decide +kernel)
  obtain ⟨hjobs, hon⟩ := Bool.and_eq_true_iff.1 hp
  refine ⟨s, h, hr, of_decide_eq_true hjobs, fixed_time_runs_once halfPastOne fallBack
    ⟨.value 0, .value 30, .value 1, .any, .any, .any⟩ (by decide +kernel) (by decide) hr
    fun x hx => Pass.isOnTime_iff.1 (List.all_eq_true.1 hon x hx)⟩

/-- Executed at 01:05 of the second pass, the schedule runs again at 01:30 of the same date. -/
theorem late_pass_repeats : ∃ s h, (schedulePasses halfPastOne fallBack).Run s h ∧
    s.jobs = [5400 * nanos, 1800 * nanos] ∧
      fallBack.wallSecond (5400 * nanos) = fallBack.wallSecond (1800 * nanos) := by
  obtain ⟨s, h, hr, hp⟩ := Machine.Run.of_exec (schedulePasses halfPastOne fallBack)
    [⟨3900 * nanos, 3900 * nanos⟩, ⟨5400 * nanos, 5400 * nanos⟩] createdAtEpoch
    (fun x => decide (x.1.jobs = [5400 * nanos, 1800 * nanos]))
    createdAtEpoch_init (by decide +kernel)
  exact ⟨s, h, hr, of_decide_eq_true hp, by decide +kernel⟩

end Spooled.Cron
