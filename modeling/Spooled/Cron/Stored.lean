import Spooled.Cron.NextRun
import Spooled.Lib.Commands
import Spooled.Lib.Table

/-!
# Stored fire times

`schedules::create`, `update`, `pause`, `resume` and the scheduler's cron
passes, each statement one step. A pass locks the row of a due schedule, and
on success stores the next run in the transaction that holds the lock. Where
the run is refused it rolls back first, which frees the row, and stores the
next run in a statement of its own. `update` and `resume` compute the next run
from a row they have read before their transaction.

Clocks of the server are inputs of the requests, with no relation to one another;
the clock of the database only goes forward.
-/

namespace Spooled.Cron

/-! ## State -/

abbrev ScheduleId := Nat

structure ScheduleRow where
  id : ScheduleId
  cronExpression : Text
  timezone : Text
  isActive : Bool := true
  nextRunAt : Option Int := none
  deriving DecidableEq

/-- `is_active = TRUE AND next_run_at <= NOW()`. -/
def ScheduleRow.isDue (clock : Int) (r : ScheduleRow) : Bool :=
  r.isActive && r.nextRunAt.any (· ≤ clock)

structure Timetable where
  rows : Table ScheduleId ScheduleRow (·.id) := Table.empty
  clock : Int := 0

/-! ## Requests -/

structure PutRequest where
  id : ScheduleId
  cronExpression : Option Text := none
  timezone : Option Text := none
  isActive : Option Bool := none
  now : Int

/-- How a pass fares with a schedule it has locked, or that another transaction holds. -/
inductive FireOutcome
  | skipped
  | created
  /-- A queue name that no claim accepts; the clock is read after the rollback. -/
  | unclaimable (at' : Int)
  /-- Job limit, payload size, daily quota, queue cap, or the insert fails. -/
  | refused
  /-- The pass ends with an error. -/
  | failed
  deriving DecidableEq

structure Fire where
  id : ScheduleId
  outcome : FireOutcome

inductive ScheduleAsk
  | create (id : ScheduleId) (cronExpression timezone : Text) (now : Int)
  | update (q : PutRequest)
  | pause (id : ScheduleId)
  | resume (id : ScheduleId) (now : Int)
  /-- `now`: the clock at the start of the batch. -/
  | cronPass (fires : List Fire) (now : Int)
  | wait (d : Nat)

inductive PassPhase
  | asked
  | next
  | locked (row : ScheduleRow) (outcome : FireOutcome)
  /-- Rolled back; the next run is computed from the row read and the clock. -/
  | rolledBack (row : ScheduleRow) (clock : Int)

inductive ScheduleProc
  | creating (id : ScheduleId) (cronExpression timezone : Text) (now : Int)
  | updating (q : PutRequest) (current : Option ScheduleRow)
  | pausing (id : ScheduleId)
  | resuming (id : ScheduleId) (now : Int) (current : Option ScheduleRow)
  | passing (now : Int) (fires : List Fire) (phase : PassPhase)
  | waiting (d : Nat)

def ScheduleAsk.proc : ScheduleAsk → ScheduleProc
  | create id cronExpression timezone now => .creating id cronExpression timezone now
  | update q => .updating q none
  | pause id => .pausing id
  | resume id now => .resuming id now none
  | cronPass fires now => .passing now fires .asked
  | wait d => .waiting d

/-! ## Statements -/

/-- The columns an `UPDATE schedules` sets. -/
structure ScheduleWrite where
  cronExpression : Option Text := none
  timezone : Option Text := none
  isActive : Option Bool := none
  nextRunAt : Option (Option Int) := none

def ScheduleWrite.apply (w : ScheduleWrite) (r : ScheduleRow) : ScheduleRow where
  id := r.id
  cronExpression := w.cronExpression.getD r.cronExpression
  timezone := w.timezone.getD r.timezone
  isActive := w.isActive.getD r.isActive
  nextRunAt := w.nextRunAt.getD r.nextRunAt

def ScheduleWrite.pause : ScheduleWrite := { isActive := some false }

def ScheduleWrite.resume (next : Option Int) : ScheduleWrite :=
  { isActive := some true, nextRunAt := some next }

def ScheduleWrite.bump (next : Option Int) : ScheduleWrite := { nextRunAt := some next }

inductive ScheduleCommand
  | insert (row : ScheduleRow)
  | write (id : ScheduleId) (w : ScheduleWrite)
  | tick (d : Nat)

def ScheduleCommand.run (c : ScheduleCommand) (s : Timetable) : Timetable :=
  match c with
  | insert row => { s with rows := s.rows.insert row }
  | write id w => { s with rows := s.rows.update (fun r => r.id == id) w.apply fun _ => rfl }
  | tick d => { s with clock := s.clock + d }

section

-- what the text of a timezone stands for: UTC, a named zone or a fixed offset
variable (zone : Text → Zone)

/-- `parse` and `next_run_after_in_timezone`. -/
def nextRunOf (cronExpression timezone : Text) (now : Int) : Option Int :=
  (parse cronExpression).toOption.bind fun cron => cron.nextRunAfterTz (zone timezone) now

def ScheduleRow.nextRun (r : ScheduleRow) (clock : Int) : Option Int :=
  nextRunAfterClock (parse r.cronExpression).toOption (zone r.timezone) clock

/-- The next run a PUT computes: `none` refuses the request, `some none` leaves the column alone. -/
def PutRequest.nextRun (q : PutRequest) (current : ScheduleRow) : Option (Option Int) :=
  if q.cronExpression.isSome || q.timezone.isSome then
    (nextRunOf zone (q.cronExpression.getD current.cronExpression)
      (q.timezone.getD current.timezone) q.now).map some
  else if q.isActive == some true && !current.isActive then
    some (nextRunOf zone current.cronExpression current.timezone q.now)
  else some none

/-- What a PUT sets, every column with `COALESCE`. -/
def PutRequest.write (q : PutRequest) (next : Option Int) : ScheduleWrite where
  cronExpression := q.cronExpression
  timezone := q.timezone
  isActive := q.isActive
  nextRunAt := next.map some

namespace ScheduleProc

def holds (id : ScheduleId) : ScheduleProc → Bool
  | passing _ _ (.locked row _) => row.id == id
  | _ => false

def writing (os : List ScheduleProc) (id : ScheduleId) (w : ScheduleWrite)
    (p : Option ScheduleProc) : Option (Turn ScheduleCommand ScheduleProc) :=
  if os.any (holds id) then none else some (.run (.write id w) p)

def act (s : Timetable) (os : List ScheduleProc) :
    ScheduleProc → Option (Turn ScheduleCommand ScheduleProc)
  | creating id cronExpression timezone now =>
    match nextRunOf zone cronExpression timezone now with
    | none => some .quit
    | some next => some (.run (.insert ⟨id, cronExpression, timezone, true, some next⟩) none)
  | updating q none => match s.rows.find q.id with
    | none => some .quit
    | some current => some (.stay (.updating q (some current)))
  | updating q (some current) => match q.nextRun zone current with
    | none => some .quit
    | some next => writing os q.id (q.write next) none
  | pausing id => writing os id .pause none
  | resuming id now none => match s.rows.find id with
    | none => some .quit
    | some current => some (.stay (.resuming id now (some current)))
  | resuming id now (some current) =>
    writing os id (.resume (nextRunOf zone current.cronExpression current.timezone now)) none
  | passing now fires .asked =>
    let due := fires.filter fun f => (s.rows.find f.id).any (·.isDue s.clock)
    some (.stay (.passing now due .next))
  | passing _ [] .next => some .quit
  | passing now (f :: fires) .next => match s.rows.find f.id with
    | none => some (.stay (.passing now fires .next))
    | some row =>
      -- `FOR UPDATE SKIP LOCKED`; a handler's transaction may hold the row as well
      if row.isDue s.clock && !os.any (holds f.id) && f.outcome != .skipped then
        some (.stay (.passing now fires (.locked row f.outcome)))
      else some (.stay (.passing now fires .next))
  | passing now fires (.locked row outcome) => match outcome with
    | .created =>
      -- the commit clock is the database's
      writing os row.id (.bump (row.nextRun zone s.clock)) (some (.passing now fires .next))
    | .unclaimable at' => some (.stay (.passing now fires (.rolledBack row at')))
    | .refused => some (.stay (.passing now fires (.rolledBack row now)))
    | .failed | .skipped => some .quit
  | passing now fires (.rolledBack row clock) =>
    writing os row.id (.bump (row.nextRun zone clock)) (some (.passing now fires .next))
  | waiting d => some (.run (.tick d) none)

end ScheduleProc

@[reducible] def scheduling : CommandSpec where
  Store := Timetable
  Proc := ScheduleProc
  Ask := ScheduleAsk
  Command := ScheduleCommand
  start s a := (s, a.proc)
  run s c := c.run s
  act := ScheduleProc.act zone

end

variable {zone : Text → Zone} {s : Timetable} {os : List ScheduleProc} {p p' : ScheduleProc}

theorem ScheduleCommand.find_write (id : ScheduleId) (w : ScheduleWrite) (k : ScheduleId) :
    ((write id w).run s).rows.find k =
      (s.rows.find k).map fun r => if r.id == id then w.apply r else r :=
  Table.find_update s.rows (fun r => r.id == id) w.apply (fun _ => rfl) k

/-! ## Fire times that fit -/

/-- The fire time, if any, matches the expression in the zone. -/
def Fits (zone : Text → Zone) (cronExpression timezone : Text) (next : Option Int) : Prop :=
  ∀ t, next = some t →
    ∃ cron, parse cronExpression = .ok cron ∧ cron.matchesAt (zone timezone) t = true

variable {r : ScheduleRow} {t : Int}

theorem nextRunOf_spec {cronExpression timezone : Text} {now : Int}
    (h : nextRunOf zone cronExpression timezone now = some t) :
    now < t ∧ ∃ cron, parse cronExpression = .ok cron ∧
      cron.matchesAt (zone timezone) t = true := by
  obtain ⟨cron, hparse, hnext⟩ := Option.bind_eq_some_iff.1 h
  have hspec := CronSchedule.nextRunAfterTz_spec hnext
  cases hp : parse cronExpression with
  | error e =>
    rw [hp] at hparse
    cases hparse
  | ok c =>
    rw [hp] at hparse
    obtain rfl : c = cron := Option.some.inj hparse
    exact ⟨hspec.2.1, c, rfl, hspec.1⟩

theorem fits_nextRunOf (cronExpression timezone : Text) (now : Int) :
    Fits zone cronExpression timezone (nextRunOf zone cronExpression timezone now) :=
  fun _ h => (nextRunOf_spec h).2

theorem ScheduleRow.nextRun_eq (r : ScheduleRow) (clock : Int) :
    r.nextRun zone clock = nextRunOf zone r.cronExpression r.timezone clock :=
  nextRunAfterClock_eq _ _ _

def ScheduleRow.Fits (zone : Text → Zone) (r : ScheduleRow) : Prop :=
  Cron.Fits zone r.cronExpression r.timezone r.nextRunAt

/-- A write that sets the fire time sets one that fits the expression and the zone the row has
after it; one that does not leaves both alone. -/
structure ScheduleWrite.FitsRow (zone : Text → Zone) (w : ScheduleWrite) (r : ScheduleRow) :
    Prop where
  left : w.nextRunAt = none → w.cronExpression = none ∧ w.timezone = none
  set : ∀ next, w.nextRunAt = some next →
    Cron.Fits zone (w.cronExpression.getD r.cronExpression) (w.timezone.getD r.timezone) next

theorem ScheduleWrite.FitsRow.apply {w : ScheduleWrite} (h : w.FitsRow zone r)
    (hr : r.Fits zone) : (w.apply r).Fits zone := by
  cases hw : w.nextRunAt with
  | none =>
    obtain ⟨hcron, htz⟩ := h.left hw
    unfold ScheduleRow.Fits ScheduleWrite.apply
    rw [hw, hcron, htz]
    exact hr
  | some next =>
    unfold ScheduleRow.Fits ScheduleWrite.apply
    rw [hw]
    exact h.set next hw

/-! ## Steps of a request -/

namespace ScheduleProc

def Free (os : List ScheduleProc) (id : ScheduleId) : Prop := ∀ q ∈ os, q.holds id = false

inductive Runs (zone : Text → Zone) (s : Timetable) (os : List ScheduleProc) :
    ScheduleProc → ScheduleCommand → Option ScheduleProc → Prop
  | insert {id : ScheduleId} {cronExpression timezone : Text} {now next : Int} :
      nextRunOf zone cronExpression timezone now = some next →
      Runs zone s os (.creating id cronExpression timezone now)
        (.insert ⟨id, cronExpression, timezone, true, some next⟩) none
  | update {q : PutRequest} {current : ScheduleRow} {next : Option Int} :
      q.nextRun zone current = some next → Free os q.id →
      Runs zone s os (.updating q (some current)) (.write q.id (q.write next)) none
  | pause {id : ScheduleId} : Free os id →
      Runs zone s os (.pausing id) (.write id .pause) none
  | resume {id : ScheduleId} {now : Int} {current : ScheduleRow} : Free os id →
      Runs zone s os (.resuming id now (some current))
        (.write id (.resume (nextRunOf zone current.cronExpression current.timezone now))) none
  | created {now : Int} {fires : List Fire} {row : ScheduleRow} : Free os row.id →
      Runs zone s os (.passing now fires (.locked row .created))
        (.write row.id (.bump (row.nextRun zone s.clock)))
        (some (.passing now fires .next))
  | rolledBack {now clock : Int} {fires : List Fire} {row : ScheduleRow} : Free os row.id →
      Runs zone s os (.passing now fires (.rolledBack row clock))
        (.write row.id (.bump (row.nextRun zone clock)))
        (some (.passing now fires .next))
  | tick {d : Nat} : Runs zone s os (.waiting d) (.tick d) none

variable {c : ScheduleCommand} {id : ScheduleId} {q : Option ScheduleProc} {w : ScheduleWrite}

theorem of_writing {p : Option ScheduleProc} (h : writing os id w p = some (.run c q)) :
    Free os id ∧ c = .write id w ∧ q = p := by
  unfold writing at h
  split at h
  · cases h
  · rename_i hfree
    cases h
    refine ⟨fun r hr => ?_, rfl, rfl⟩
    have hno := List.any_eq_false.1 (Bool.eq_false_of_not_eq_true hfree) r hr
    exact Bool.eq_false_of_not_eq_true hno

theorem not_stay_writing {p : Option ScheduleProc}
    {q : ScheduleProc} : writing os id w p ≠ some (.stay q) := by
  unfold writing
  split <;> exact nofun

theorem runs_of_act (h : act zone s os p = some (.run c q)) : Runs zone s os p c q := by
  unfold act at h
  split at h
  · split at h
    · cases h
    · rename_i hnext
      cases h
      exact .insert hnext
  · split at h <;> cases h
  · split at h
    · cases h
    · rename_i hnext
      obtain ⟨hfree, rfl, rfl⟩ := of_writing h
      exact .update hnext hfree
  · obtain ⟨hfree, rfl, rfl⟩ := of_writing h
    exact .pause hfree
  · split at h <;> cases h
  · obtain ⟨hfree, rfl, rfl⟩ := of_writing h
    exact .resume hfree
  · cases h
  · cases h
  · split at h
    · cases h
    · split at h <;> cases h
  · split at h
    · obtain ⟨hfree, rfl, rfl⟩ := of_writing h
      exact .created hfree
    all_goals cases h
  · obtain ⟨hfree, rfl, rfl⟩ := of_writing h
    exact .rolledBack hfree
  · cases h
    exact .tick

/-- Every write waits for the lock of its row. -/
theorem Runs.free (h : Runs zone s os p c q) (hc : c = .write id w) : Free os id := by
  cases h with
  | insert => cases hc
  | tick => cases hc
  | update _ hfree | pause hfree | resume hfree | created hfree | rolledBack hfree =>
    cases hc
    exact hfree

/-! ## What a locked row is -/

/-- A pass that holds a row has read it as it is stored, and it is due. -/
def HoldsRow (s : Timetable) : ScheduleProc → Prop
  | passing _ _ (.locked row _) => s.rows.find row.id = some row ∧ row.isDue s.clock = true
  | _ => True

theorem holdsRow_of_stay (h : act zone s os p = some (.stay p')) : p'.HoldsRow s := by
  unfold act at h
  split at h
  · split at h <;> cases h
  · split at h
    · cases h
    · cases h
      trivial
  · split at h
    · cases h
    · exact absurd h not_stay_writing
  · exact absurd h not_stay_writing
  · split at h
    · cases h
    · cases h
      trivial
  · exact absurd h not_stay_writing
  · cases h
    trivial
  · cases h
  · split at h
    · cases h
      trivial
    · next row hrow =>
      split at h
      · next hlock =>
        cases h
        simp only [Bool.and_eq_true] at hlock
        exact ⟨Table.key_of_find hrow ▸ hrow, hlock.1.1⟩
      · cases h
        trivial
  · split at h
    · exact absurd h not_stay_writing
    · cases h
      trivial
    · cases h
      trivial
    all_goals cases h
  · exact absurd h not_stay_writing
  · cases h

/-- A later clock finds a due row due. -/
theorem isDue_mono {r : ScheduleRow} {clock clock' : Int} (h : r.isDue clock = true)
    (hle : clock ≤ clock') : r.isDue clock' = true := by
  unfold ScheduleRow.isDue at *
  obtain ⟨hactive, hdue⟩ := Bool.and_eq_true_iff.1 h
  obtain ⟨t, ht, hle'⟩ := (Option.any_eq_true _ _).1 hdue
  refine Bool.and_eq_true_iff.2 ⟨hactive, (Option.any_eq_true _ _).2 ⟨t, ht, ?_⟩⟩
  simp only [decide_eq_true_eq] at *
  omega

/-- Nobody writes to a row that another one holds. -/
theorem Runs.holdsRow {r : ScheduleProc}
    (h : Runs zone s os p c q) (hr : r ∈ os) (hrow : r.HoldsRow s) : r.HoldsRow (c.run s) := by
  unfold HoldsRow at *
  split
  · next row outcome =>
    obtain ⟨hfind, hdue⟩ := hrow
    cases hc : c with
    | insert row' =>
      refine ⟨?_, hdue⟩
      show (s.rows.insert row').find row.id = some row
      rw [Table.find_insert, if_neg (fun hn => by rw [hfind] at hn; nomatch hn.2)]
      exact hfind
    | write id w =>
      have hfree := h.free hc _ hr
      have hne : (row.id == id) = false := hfree
      refine ⟨?_, hdue⟩
      rw [ScheduleCommand.find_write, hfind, Option.map_some, hne]
      rfl
    | tick d =>
      refine ⟨hfind, isDue_mono hdue ?_⟩
      show s.clock ≤ s.clock + d
      omega
  · trivial

/-! ## Writes from a row that is still current -/

/-- Before the write, the expression and the zone that the row will have are those the fire time
was computed from; and the write after a rollback finds a fire time that its clock has reached. -/
def isCurrent (s : Timetable) : ScheduleProc → Bool
  | updating q (some current) =>
    -- a PUT that names neither column and does not reactivate computes nothing
    (q.cronExpression.isNone && q.timezone.isNone && !(q.isActive == some true && !current.isActive))
      || (s.rows.find q.id).all fun r =>
        (q.cronExpression.isSome || r.cronExpression == current.cronExpression) &&
          (q.timezone.isSome || r.timezone == current.timezone)
  | resuming id _ (some current) => (s.rows.find id).all fun r =>
      r.cronExpression == current.cronExpression && r.timezone == current.timezone
  | passing _ _ (.rolledBack row clock) => (s.rows.find row.id).all fun r =>
      r.cronExpression == row.cronExpression && r.timezone == row.timezone &&
        r.nextRunAt.all (· ≤ clock)
  | _ => true

def WriteFits (zone : Text → Zone) (s : Timetable) (c : ScheduleCommand) : Prop :=
  ∀ id w, c = .write id w → ∀ r, s.rows.find id = some r → w.FitsRow zone r

theorem fitsRow_put {q : PutRequest} {current r : ScheduleRow} {next : Option Int}
    (hnext : q.nextRun zone current = some next) (hcur : isCurrent s (.updating q (some current)))
    (hr : s.rows.find q.id = some r) : (q.write next).FitsRow zone r := by
  unfold PutRequest.nextRun at hnext
  simp only [isCurrent, hr, Option.all_some, Bool.or_eq_true, Bool.and_eq_true] at hcur
  split at hnext
  · next hnamed =>
    obtain ⟨t, ht, rfl⟩ := Option.map_eq_some_iff.1 hnext
    refine ⟨fun h => (by cases h), fun next h => ?_⟩
    obtain rfl : some t = next := Option.some.inj h
    rcases hcur with ⟨⟨hcron, htz⟩, -⟩ | ⟨hcron, htz⟩
    · rw [Option.isNone_iff_eq_none.1 hcron, Option.isNone_iff_eq_none.1 htz] at hnamed
      cases hnamed
    · have hcron' : q.cronExpression.getD r.cronExpression =
          q.cronExpression.getD current.cronExpression := by
        cases hq : q.cronExpression with
        | some c => rfl
        | none =>
          rw [hq] at hcron
          simpa using hcron
      have htz' : q.timezone.getD r.timezone = q.timezone.getD current.timezone := by
        cases hq : q.timezone with
        | some c => rfl
        | none =>
          rw [hq] at htz
          simpa using htz
      show Fits zone (q.cronExpression.getD r.cronExpression) (q.timezone.getD r.timezone) (some t)
      rw [hcron', htz', ← ht]
      exact fits_nextRunOf _ _ _
  · next hnamed =>
    have hnone : q.cronExpression = none ∧ q.timezone = none := by
      simpa [Option.isSome_iff_ne_none] using hnamed
    split at hnext
    · next hact =>
      obtain rfl := Option.some.inj hnext
      refine ⟨fun _ => hnone, fun next h => ?_⟩
      obtain ⟨t, ht, rfl⟩ := Option.map_eq_some_iff.1 h
      rcases hcur with ⟨-, hnot⟩ | ⟨hcron, htz⟩
      · rw [hact] at hnot
        cases hnot
      · rw [hnone.1] at hcron
        rw [hnone.2] at htz
        have hcron : r.cronExpression = current.cronExpression := by simpa using hcron
        have htz : r.timezone = current.timezone := by simpa using htz
        show Fits zone (q.cronExpression.getD r.cronExpression) (q.timezone.getD r.timezone) (some t)
        rw [hnone.1, hnone.2]
        show Fits zone r.cronExpression r.timezone (some t)
        rw [hcron, htz, ← ht]
        exact fits_nextRunOf _ _ _
    · obtain rfl := Option.some.inj hnext
      exact ⟨fun _ => hnone, fun _ h => by cases h⟩

theorem Runs.writeFits (h : Runs zone s os p c q)
    (hown : p.HoldsRow s) (hcur : p.isCurrent s = true) : WriteFits zone s c := by
  intro id w hc r hr
  cases h with
  | insert => cases hc
  | tick => cases hc
  | update hnext =>
    cases hc
    exact fitsRow_put hnext hcur hr
  | pause =>
    cases hc
    exact ⟨fun _ => ⟨rfl, rfl⟩, fun _ h => by cases h⟩
  | @resume _ now current =>
    cases hc
    simp only [isCurrent, hr, Option.all_some, Bool.and_eq_true, beq_iff_eq] at hcur
    refine ⟨fun h => (by cases h), fun next h => ?_⟩
    obtain rfl := Option.some.inj h
    show Fits zone r.cronExpression r.timezone _
    rw [hcur.1, hcur.2]
    exact fits_nextRunOf _ _ _
  | @created now fires row =>
    cases hc
    obtain rfl : row = r := Option.some.inj (hown.1.symm.trans hr)
    refine ⟨fun h => (by cases h), fun next h => ?_⟩
    obtain rfl := Option.some.inj h
    rw [ScheduleRow.nextRun_eq]
    exact fits_nextRunOf _ _ _
  | @rolledBack now clock fires row =>
    cases hc
    simp only [isCurrent, hr, Option.all_some, Bool.and_eq_true, beq_iff_eq] at hcur
    refine ⟨fun h => (by cases h), fun next h => ?_⟩
    obtain rfl := Option.some.inj h
    show Fits zone r.cronExpression r.timezone _
    rw [ScheduleRow.nextRun_eq, hcur.1.1, hcur.1.2]
    exact fits_nextRunOf _ _ _

end ScheduleProc

def Timetable.Fits (zone : Text → Zone) (s : Timetable) : Prop := ∀ r ∈ s.rows.rows, r.Fits zone

/-- **One statement keeps the fire times fitting.** -/
theorem ScheduleProc.Runs.fits {c : ScheduleCommand} {q : Option ScheduleProc}
    (h : Runs zone s os p c q) (hs : s.Fits zone) (hw : WriteFits zone s c) :
    (c.run s).Fits zone := by
  intro r hr
  cases hc : c with
  | insert row =>
    rw [hc] at h hr
    rcases Table.mem_insert.1 hr with hr | ⟨-, rfl⟩
    · exact hs r hr
    · cases h with
      | insert hnext =>
        unfold ScheduleRow.Fits
        rw [← hnext]
        exact fits_nextRunOf _ _ _
  | write id w =>
    rw [hc] at hr
    have hfind := Table.find_key hr
    rw [ScheduleCommand.find_write] at hfind
    obtain ⟨r₀, hr₀, rfl⟩ := Option.map_eq_some_iff.1 hfind
    have hmem := Table.mem_of_find hr₀
    split
    · next hid =>
      have hfound : s.rows.find id = some r₀ := beq_iff_eq.1 hid ▸ Table.find_key hmem
      exact (hw id w hc r₀ hfound).apply (hs r₀ hmem)
    · exact hs r₀ hmem
  | tick d =>
    rw [hc] at hr
    exact hs r hr

/-! ## The passes go forward -/

def ScheduleProc.isPass : ScheduleProc → Bool
  | passing _ _ _ => true
  | _ => false

theorem ScheduleRow.le_bump {row r' : ScheduleRow} {clock t' : Int} {k : ScheduleId}
    (hr : s.rows.find k = some r) (ht : r.nextRunAt = some t) (hdue : r.id = row.id → t ≤ clock)
    (hr' : ((ScheduleCommand.write row.id (.bump (row.nextRun zone clock))).run s).rows.find k =
      some r') (ht' : r'.nextRunAt = some t') : t ≤ t' := by
  rw [ScheduleCommand.find_write, hr, Option.map_some] at hr'
  obtain rfl := Option.some.inj hr'
  split at ht'
  · next hid =>
    have hnext : row.nextRun zone clock = some t' := ht'
    rw [ScheduleRow.nextRun_eq] at hnext
    have hlater := (nextRunOf_spec hnext).1
    have hclock := hdue (beq_iff_eq.1 hid)
    omega
  · rw [ht] at ht'
    cases ht'
    exact le_refl t

theorem ScheduleProc.Runs.forward {c : ScheduleCommand} {q : Option ScheduleProc}
    {r' : ScheduleRow} {k : ScheduleId} {t' : Int} (h : Runs zone s os p c q)
    (hpass : p.isPass = true) (hown : p.HoldsRow s) (hcur : p.isCurrent s = true)
    (hr : s.rows.find k = some r) (ht : r.nextRunAt = some t)
    (hr' : (c.run s).rows.find k = some r') (ht' : r'.nextRunAt = some t') : t ≤ t' := by
  have hkey := Table.find_key (Table.mem_of_find hr)
  cases h with
  | insert | update | pause | resume | tick => nomatch hpass
  | @created now fires row =>
    refine ScheduleRow.le_bump hr ht (fun hid => ?_) hr' ht'
    -- the locked row is the stored one, and was due when it was locked
    obtain ⟨hfind, hdue⟩ := hown
    rw [hid, hfind] at hkey
    obtain rfl := Option.some.inj hkey
    simp only [ScheduleRow.isDue, ht, Option.any_some, Bool.and_eq_true, decide_eq_true_eq] at hdue
    exact hdue.2
  | @rolledBack now clock fires row =>
    refine ScheduleRow.le_bump hr ht (fun hid => ?_) hr' ht'
    rw [hid] at hkey
    simp only [isCurrent, hkey, Option.all_some, ht, Bool.and_eq_true, decide_eq_true_eq] at hcur
    exact hcur.2

/-! ## Whole runs -/

@[reducible] def currentWrites (zone : Text → Zone) : PoolSpec.Allow (scheduling zone).pool :=
  .onRun (scheduling zone).pool fun s _ p => ScheduleProc.isCurrent s p

theorem scheduling_kept : PoolSpec.Kept (scheduling zone).pool (currentWrites zone)
    (Timetable.Fits zone) (fun s p => p.HoldsRow s) fun _ _ _ => True := by
  refine @CommandSpec.Keeps.kept (scheduling zone) (currentWrites zone) _ _ _ ?_
  refine ⟨fun _ => trivial, fun {s a} _ hs => ⟨hs, ?_⟩, fun _ _ hq => ⟨hq, trivial⟩,
    fun _ => trivial, fun {s os p p'} hact _ _ =>
      ⟨ScheduleProc.holdsRow_of_stay hact, fun _ _ => trivial⟩,
    fun {s os p c p'} hact hA hb => ?_⟩
  · cases a <;> trivial
  · have hruns : ScheduleProc.Runs zone s os p c p' := ScheduleProc.runs_of_act hact
    have hown : p.HoldsRow s := hb.own
    have hcur : p.isCurrent s = true := hA
    refine ⟨hruns.fits hb.store (hruns.writeFits hown hcur),
      fun r hr => ⟨?_, fun _ _ => trivial⟩, fun r hr => hruns.holdsRow hr (hb.others r hr),
      fun _ _ _ _ _ => trivial⟩
    cases hruns with
    | created | rolledBack =>
      cases hr
      trivial
    | insert | update | pause | resume | tick => exact absurd hr (Option.not_mem_none _)

def scheduleSystem (zone : Text → Zone) : Machine :=
  (scheduling zone).pool.machine (Timetable.Fits zone)

/-- **Stored fire times belong to the stored schedule.** When a fire time is only written while the
expression and the zone it was computed from are still the row's, and after a rollback only over
one that its clock has reached, then every stored fire time matches its expression in its zone,
and no step of a pass moves one backwards. -/
theorem fire_times_belong (zone : Text → Zone) {x : Pool Timetable ScheduleProc}
    {h : List (Pool Timetable ScheduleProc × PoolLabel ScheduleAsk)}
    (hr : (scheduleSystem zone).Run x h)
    (hcur : (scheduleSystem zone).Steps (currentWrites zone).step h) :
    (∀ r ∈ x.store.rows.rows, r.isActive = true → r.Fits zone) ∧
      ∀ k p x', x.procs[k]? = some p → p.isPass = true → (currentWrites zone).step x (.run k) →
        (scheduleSystem zone).next x (.run k) = some x' →
        ∀ id r r' t t', x.store.rows.find id = some r → r.nextRunAt = some t →
          x'.store.rows.find id = some r' → r'.nextRunAt = some t' → t ≤ t' := by
  have hinv := scheduling_kept.invariant (fun _ hs => hs) hr hcur
  refine ⟨fun r hmem _ => hinv.store r hmem, ?_⟩
  intro k p x' hk hpass hstep hn id r r' t t' hfind ht hfind' ht'
  have hn : (scheduling zone).pool.next x (.run k) = some x' := hn
  rcases CommandSpec.store_of_run hn with he | ⟨p', c, q, hk', hact, he⟩
  · rw [he, hfind] at hfind'
    obtain rfl := Option.some.inj hfind'
    rw [ht] at ht'
    cases ht'
    exact le_refl t
  · obtain rfl : p = p' := Option.some.inj (hk.symm.trans hk')
    have hown : p.HoldsRow x.store := hinv.each p (List.mem_of_getElem? hk)
    rw [he] at hfind'
    exact (ScheduleProc.runs_of_act hact).forward hpass hown (hstep p hk) hfind ht hfind' ht'

def utcOnly (_ : Text) : Zone := .ofTransitions 0 []

def dailyRow (cronExpression : Text) (next : Int) : ScheduleRow :=
  ⟨1, cronExpression, "UTC".toList, true, some (next * nanos)⟩

def dueRow : ScheduleRow := dailyRow "30 1 * * *".toList 5400

/-- The schedule is due, and the first process is a pass whose next step stores the next day. -/
def aboutToCommit (x : Pool Timetable ScheduleProc) : Bool :=
  decide (x.store.rows.find 1 = some dueRow) &&
    x.procs[0]?.any (fun p => p.isPass && p.isCurrent x.store) &&
    ((scheduling utcOnly).pool.next x (.run 0)).any fun x' =>
      decide (x'.store.rows.find 1 = some (dailyRow "30 1 * * *".toList 91800))

/-- A schedule is created at the epoch, and a pass that has locked it at half past one is about to
commit: the fire time fits, and the commit moves it to the next day. -/
theorem fire_times_belong_commit : ∃ x h x', (scheduleSystem utcOnly).Run x h ∧
    x.store.rows.find 1 = some dueRow ∧ (∀ r ∈ x.store.rows.rows, r.isActive = true → r.Fits utcOnly) ∧
    (scheduleSystem utcOnly).next x (.run 0) = some x' ∧
    x'.store.rows.find 1 = some (dailyRow "30 1 * * *".toList 91800) ∧ 5400 * nanos ≤ 91800 * nanos := by
  obtain ⟨x, h, hr, hsteps, hp⟩ := (currentWrites utcOnly).run_of_exec (Timetable.Fits utcOnly)
    [.ask (.create 1 "30 1 * * *".toList "UTC".toList 0), .run 0, .ask (.wait 5400000000000), .run 0,
      .ask (.cronPass [⟨1, .created⟩] (5400 * nanos)), .run 0, .run 0]
    ⟨{}, []⟩ (fun x => aboutToCommit x.1) ⟨fun r hr => absurd hr List.not_mem_nil, rfl⟩ (by decide +kernel)
  simp only [aboutToCommit, Bool.and_eq_true, decide_eq_true_eq, Option.any_eq_true] at hp
  obtain ⟨⟨hdue, p, hk, hpass, hcur⟩, x', hn, hnext⟩ := hp
  obtain ⟨hfits, hforward⟩ := fire_times_belong utcOnly hr hsteps
  refine ⟨x, h, x', hr, hdue, hfits, hn, hnext, hforward 0 p x' hk hpass (fun q hq => ?_) hn 1 _ _
    _ _ hdue rfl hnext rfl⟩
  obtain rfl : p = q := Option.some.inj (hk.symm.trans hq)
  exact hcur

/-- A pass over half past one is refused and rolls back; a PUT changes the expression to two
o'clock and stores two o'clock; then the pass stores half past one of the next day. -/
theorem refused_pass_overwrites : ∃ x h r, (scheduleSystem utcOnly).Run x h ∧ x.procs = [] ∧
    x.store.rows.find 1 = some r ∧ r = dailyRow "0 2 * * *".toList 91800 ∧ ¬ r.Fits utcOnly := by
  obtain ⟨x, h, hr, hp⟩ := Machine.Run.of_exec (scheduleSystem utcOnly)
    [.ask (.create 1 "30 1 * * *".toList "UTC".toList 0), .run 0, .ask (.wait 5400000000000), .run 0,
      .ask (.cronPass [⟨1, .refused⟩] (5400 * nanos)), .run 0, .run 0, .run 0,
      .ask (.update { id := 1, cronExpression := some "0 2 * * *".toList, now := 5401 * nanos }),
      .run 0, .run 0, .run 0, .run 0]
    ⟨{}, []⟩
    (fun x => x.1.procs.isEmpty &&
      decide (x.1.store.rows.find 1 = some (dailyRow "0 2 * * *".toList 91800)))
    ⟨fun r hr => absurd hr List.not_mem_nil, rfl⟩ (by decide +kernel)
  simp only [Bool.and_eq_true, decide_eq_true_eq, List.isEmpty_iff] at hp
  refine ⟨x, h, _, hr, hp.1, hp.2, rfl, fun hfits => ?_⟩
  obtain ⟨cron, hparse, hmatch⟩ := hfits (91800 * nanos) rfl
  have hno : (parse "0 2 * * *".toList).toOption.all
      (fun cron => !cron.matchesAt (utcOnly "UTC".toList) (91800 * nanos)) = true := by
    decide +kernel
  have hparse : parse "0 2 * * *".toList = .ok cron := hparse
  rw [hparse] at hno
  have hno : (!cron.matchesAt (utcOnly "UTC".toList) (91800 * nanos)) = true := hno
  have hmatch : cron.matchesAt (utcOnly "UTC".toList) (91800 * nanos) = true := hmatch
  rw [hmatch] at hno
  cases hno

end Spooled.Cron
