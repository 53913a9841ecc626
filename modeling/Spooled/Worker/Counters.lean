import Spooled.Job.Settle

/-!
# Worker counters

`trigger_count_worker_job_outcome` counts on `workers.jobs_processed` and
`workers.jobs_failed` what it can tell from the old and the new row of an
`UPDATE OF status`. The machine here runs the job store with the counter columns
of `workers` beside it, firing the trigger for the rows of `Stmt.statusUpdates`. Every
report that is answered with success adds one to its counter, and nothing else does.
-/

namespace Spooled

/-! ## The trigger -/

/-- The counter columns of a row of `workers`; its status and heartbeat are in `Db.workers`. -/
structure WorkerCounters where
  id : WorkerId
  organizationId : OrgId
  jobsProcessed : Nat := 0
  jobsFailed : Nat := 0
deriving DecidableEq, Repr

abbrev CounterTable := Table WorkerId WorkerCounters WorkerCounters.id

/-- The `WHEN` clause of `trigger_count_worker_job_outcome`. -/
def countsOutcome (now : Time) (old new : Job) : Bool :=
  old.status == .processing && old.assignedWorkerId.isSome && old.leaseLive now &&
    (new.status == .completed || new.status.lost ||
      new.status.waiting && decide (old.retryCount < new.retryCount))

/-- `count_worker_job_outcome()`. -/
def countWorkerJobOutcome (old new : Job) (ws : CounterTable) : CounterTable :=
  let own := fun w : WorkerCounters =>
    old.assignedWorkerId == some w.id && w.organizationId == old.organizationId
  if new.status == .completed then
    ws.update own (fun w => { w with jobsProcessed := w.jobsProcessed + 1 }) fun _ => rfl
  else ws.update own (fun w => { w with jobsFailed := w.jobsFailed + 1 }) fun _ => rfl

/-- The deferred trigger for the updated rows of one statement. -/
def fireCounters (now : Time) (updates : List (Job × Job)) (ws : CounterTable) : CounterTable :=
  updates.foldl (fun ws u => if countsOutcome now u.1 u.2 then countWorkerJobOutcome u.1 u.2 ws
    else ws) ws

/-! ## Reports and what the trigger makes of them -/

inductive ReportKind
  | processed | failed
deriving DecidableEq, Repr

/-- The report a statement carries out, with what the worker presents. -/
def Stmt.report : Stmt → Option (ReportKind × Presented)
  | .complete q => some (.processed, q)
  | .failWrite q _ _ _ | .failGrpc q _ _ => some (.failed, q)
  | _ => none

/-- One success answer: to which worker of which organization, about what. -/
structure Answer where
  outcome : ReportKind
  worker : WorkerId
  organizationId : OrgId
deriving DecidableEq, Repr

/-- The success answer of a step: the `UPDATE` of the report matched a row. -/
def Sys.answer (s : Sys) (a : Label) : Option Answer :=
  (s.action a).bind fun x => x.1.report.bind fun (o, q) =>
    if s.db.jobs.rows.any (·.heldBy s.now q) then some ⟨o, q.worker, q.organizationId⟩ else none

def Sys.statusUpdates (s : Sys) (a : Label) : List (Job × Job) :=
  match s.action a with
  | some (c, _) => c.statusUpdates s.now s.db
  | none => []

def Answer.count (r : Answer) (ws : CounterTable) : CounterTable :=
  let own := fun w : WorkerCounters => r.worker == w.id && w.organizationId == r.organizationId
  match r.outcome with
  | .processed =>
    ws.update own (fun w => { w with jobsProcessed := w.jobsProcessed + 1 }) fun _ => rfl
  | .failed => ws.update own (fun w => { w with jobsFailed := w.jobsFailed + 1 }) fun _ => rfl

section Trigger

variable {cfg : Config} {now : Time} {db : Db} {c : Stmt} {j : Job} {q : Presented}
  {ws : CounterTable} {s s' : Sys} {a : Label} {h : List (Sys × Label)}

theorem fireCounters_idle {updates : List (Job × Job)}
    (h : ∀ u ∈ updates, countsOutcome now u.1 u.2 = false) : fireCounters now updates ws = ws := by
  induction updates with
  | nil => rfl
  | cons u us ih =>
    rw [fireCounters, List.foldl_cons, h u List.mem_cons_self]
    exact ih fun v hv => h v (List.mem_cons_of_mem _ hv)

theorem not_countsOutcome_of_no_report (h : c.report = none) {u : Job × Job}
    (hu : u ∈ c.statusUpdates now db) : countsOutcome now u.1 u.2 = false := by
  have leaseEnded : ∀ {j j' : Job}, j.leaseOver now = true → countsOutcome now j j' = false := by
    intro j j' hl
    have hlive : j.leaseLive now = false := by
      unfold Job.leaseLive
      unfold Job.leaseOver at hl
      cases he : j.leaseExpiresAt with
      | none => rfl
      | some t =>
        rw [he, Option.all_some, decide_eq_true_eq] at hl
        rw [Option.any_some, decide_eq_false_iff_not]
        exact not_lt.2 hl
    rw [countsOutcome, hlive, Bool.and_false, Bool.false_and]
  have expired : ∀ {j : Job}, Db.leaseExpired now j = true → j.leaseOver now = true := by
    intro j hl
    simp only [Db.leaseExpired, Bool.and_eq_true, Option.any_eq_true] at hl
    obtain ⟨-, t, ht, hle⟩ := hl
    rw [Job.leaseOver, ht]
    exact hle
  cases c <;> simp only [Stmt.statusUpdates, Stmt.settles, List.mem_map, List.mem_filter,
    List.not_mem_nil] at hu
  case complete | failWrite | failGrpc => cases h
  case releaseUnsentClaim i org lease =>
    obtain ⟨j, -, rfl⟩ := hu
    simp [countsOutcome, Job.written, Db.clearLease, Status.lost]
  case deadLetterOversized i org lease reason =>
    obtain ⟨j, ⟨hj, hcl⟩, rfl⟩ := hu
    refine leaseEnded ?_
    -- the row is as the first statement of the transaction left it
    have hrow := Db.job_of_mem hj
    rw [Db.job_setJobs] at hrow
    obtain ⟨r, -, rfl⟩ := Option.map_eq_some_iff.1 hrow
    split at hcl
    · next hr =>
      rw [if_pos hr]
      exact decide_eq_true le_rfl
    · next hr => exact absurd hcl hr
  case releaseDeregistered =>
    obtain ⟨j, ⟨-, hp⟩, rfl⟩ := hu
    simp only [Bool.and_eq_true] at hp
    exact leaseEnded hp.2
  case recoverExpiredLeases | deadletterExpiredLeases =>
    obtain ⟨j, ⟨-, hp⟩, rfl⟩ := hu
    rw [Bool.and_eq_true] at hp
    exact leaseEnded (expired hp.1)
  case releaseOfflineWorkers | deadletterOfflineWorkers =>
    obtain ⟨j, ⟨-, hp⟩, rfl⟩ := hu
    simp only [Db.abandoned, Bool.and_eq_true] at hp
    exact leaseEnded hp.1.1.2

theorem fireCounters_report {o : ReportKind} (hrep : c.report = some (o, q))
    (hread : ∀ i j, db.job i = some j → ReadsCurrent now c j) :
    fireCounters now (c.statusUpdates now db) ws =
      if db.jobs.rows.any (·.heldBy now q) then Answer.count ⟨o, q.worker, q.organizationId⟩ ws
      else ws := by
  -- what the three statements assign to a held row
  obtain ⟨f, hset, hst⟩ : ∃ f, c.settles now db = some (db, (·.heldBy now q), f) ∧
      ∀ i j, db.job i = some j → j.heldBy now q = true →
        (o = .processed ∧ (f j).status = .completed ∨
          o = .failed ∧ ((f j).status = .deadletter ∨
            (f j).status = .scheduled ∧ j.retryCount < (f j).retryCount)) := by
    cases c <;> simp only [Stmt.report, Option.some.injEq, Prod.mk.injEq, reduceCtorEq] at hrep
    case complete =>
      obtain ⟨rfl, rfl⟩ := hrep
      exact ⟨_, rfl, fun _ _ _ _ => .inl ⟨rfl, rfl⟩⟩
    case failWrite q' read error jitter =>
      obtain ⟨rfl, rfl⟩ := hrep
      refine ⟨_, rfl, fun i j hj hh => .inr ⟨rfl, ?_⟩⟩
      obtain rfl := hread i j hj q' read error jitter rfl hh
      split
      · exact .inr ⟨rfl, Int.lt_succ _⟩
      · exact .inl rfl
    case failGrpc q' retry error =>
      obtain ⟨rfl, rfl⟩ := hrep
      refine ⟨_, rfl, fun i j hj hh => .inr ⟨rfl, ?_⟩⟩
      split
      · exact .inl rfl
      · exact .inr ⟨rfl, Int.lt_succ _⟩
  have hkey : ∀ j ∈ db.jobs.rows, j.heldBy now q = true → j.id = q.job := by
    intro j _ hh
    simp only [Job.heldBy, Bool.and_eq_true, beq_iff_eq] at hh
    exact hh.1.1.1.1.1.1
  unfold Stmt.statusUpdates
  rw [hset]
  dsimp only
  rcases Table.filter_of_key hkey with hnil | ⟨j, hj, hh, hone⟩
  · have hnone : db.jobs.rows.any (·.heldBy now q) = false := by
      rw [List.any_eq_false]
      exact List.filter_eq_nil_iff.1 hnil
    rw [hnil, hnone]
    rfl
  · have hsome : db.jobs.rows.any (·.heldBy now q) = true :=
      List.any_eq_true.2 ⟨j, Table.mem_of_find hj, hh⟩
    have hheld := hh
    simp only [Job.heldBy, Bool.and_eq_true, beq_iff_eq] at hheld
    obtain ⟨⟨⟨⟨⟨⟨-, hworker⟩, horg⟩, hproc⟩, hlive⟩, -⟩, -⟩ := hheld
    rw [hone, hsome, if_pos rfl]
    show (if countsOutcome now j (j.written now f) then countWorkerJobOutcome j (j.written now f) ws
      else ws) = _
    have hcounts : countsOutcome now j (j.written now f) = true := by
      rw [countsOutcome, hproc, hworker, hlive]
      rcases hst _ j hj hh with ⟨-, h⟩ | ⟨-, h | ⟨h, hlt⟩⟩
      · simp [Job.written, h]
      · simp [Job.written, h, Status.lost]
      · simp [Job.written, h, hlt, Status.waiting]
    rw [hcounts, if_pos rfl, countWorkerJobOutcome, hworker, horg]
    rcases hst _ j hj hh with ⟨rfl, h⟩ | ⟨rfl, h⟩
    · have hs : ((j.written now f).status == .completed) = true := beq_iff_eq.2 h
      rw [hs]
      rfl
    · have hs : ((j.written now f).status == .completed) = false := by
        have hne : (f j).status ≠ .completed := by
          rcases h with h | ⟨h, -⟩ <;> rw [h] <;> decide
        exact beq_eq_false_iff_ne.2 hne
      rw [hs]
      rfl

/-- **What a step does to the counters**: what its answer says. -/
theorem fireCounters_step (ws : CounterTable) (hr : (system cfg).Run s h) (hn : s.next cfg a = some s') :
    fireCounters s.now (s.statusUpdates a) ws =
      match s.answer a with
      | some r => r.count ws
      | none => ws := by
  cases Sys.step_of_next hn with
  | idle ha =>
    rw [Sys.statusUpdates, Sys.answer, ha]
    rfl
  | stmt c k ha hacts =>
    rw [Sys.statusUpdates, Sys.answer, ha, Option.bind_some]
    dsimp only
    cases hrep : c.report with
    | none =>
      rw [Option.bind_none]
      exact fireCounters_idle fun u => not_countsOutcome_of_no_report hrep
    | some x =>
      obtain ⟨o, q⟩ := x
      rw [fireCounters_report hrep fun i j => (freshReads_run hr).readsCurrent hacts]
      rw [Option.bind_some]
      dsimp only
      split <;> rfl

end Trigger

/-! ## Runs with counters -/

/-- The job store with the counter columns of `workers`. -/
structure CountedSys where
  sys : Sys := {}
  counters : CounterTable := Table.empty

inductive CountedLabel
  | step (a : Label)
  | register (id : WorkerId) (org : OrgId)
  | cleanupWorkers (pick : WorkerId → Bool)

/-- Offline for a week and holding no claim. -/
def Db.workerGone (db : Db) (now : Time) (id : WorkerId) : Bool :=
  (db.workers.any fun w =>
    w.id == id && w.status == .offline && decide (w.lastHeartbeat + days 7 < now)) &&
  !db.jobs.rows.any fun j => j.assignedWorkerId == some id && j.status == .processing

def CountedSys.next (cfg : Config) (s : CountedSys) : CountedLabel → Option CountedSys
  | .step a => (s.sys.next cfg a).map fun t =>
      ⟨t, fireCounters s.sys.now (s.sys.statusUpdates a) s.counters⟩
  | .register id org =>
    -- `ON CONFLICT (id) DO UPDATE`: the row of the same organization keeps its
    -- counters, an id of another organization is refused
    if (s.counters.find id).all (·.organizationId == org) then
      (s.sys.next cfg (.stmt (.upsertWorker ⟨id, org, .healthy, s.sys.now⟩))).map fun t =>
        ⟨t, s.counters.insert { id := id, organizationId := org }⟩
    else none
  | .cleanupWorkers pick =>
    some ⟨s.sys, s.counters.delete fun w => s.sys.db.workerGone s.sys.now w.id && pick w.id⟩

def countedSystem (cfg : Config) : Machine where
  State := CountedSys
  Label := CountedLabel
  Init s := (system cfg).Init s.sys ∧ s.counters = Table.empty
  next := CountedSys.next cfg

/-- The success answers `r` since the row of the worker was inserted. -/
def answersSince (r : Answer) : List (CountedSys × CountedLabel) → Nat
  | [] => 0
  | (s, .step a) :: h => (if s.sys.answer a = some r then 1 else 0) + answersSince r h
  | (s, .register id _) :: h =>
    if id = r.worker ∧ s.counters.find id = none then 0 else answersSince r h
  | (_, .cleanupWorkers _) :: h => answersSince r h

/-- All success answers `r` of a run. -/
def answersTotal (r : Answer) (h : List (CountedSys × CountedLabel)) : Nat :=
  h.countP fun x => match x.2 with
    | .step a => x.1.sys.answer a = some r
    | _ => false

section Run

variable {cfg : Config} {s s' : CountedSys} {h : List (CountedSys × CountedLabel)}
  {ws : CounterTable} {id : WorkerId} {w w' : WorkerCounters} {r : Answer}

theorem CountedSys.next_sys {a : CountedLabel} (hn : s.next cfg a = some s') :
    s'.sys = s.sys ∨ ∃ b, s.sys.next cfg b = some s'.sys := by
  cases a with
  | step a =>
    obtain ⟨t, ht, rfl⟩ := Option.map_eq_some_iff.1 hn
    exact .inr ⟨a, ht⟩
  | register id org =>
    rw [CountedSys.next] at hn
    split at hn
    · obtain ⟨t, ht, rfl⟩ := Option.map_eq_some_iff.1 hn
      exact .inr ⟨_, ht⟩
    · cases hn
  | cleanupWorkers pick =>
    obtain rfl := Option.some.inj hn
    exact .inl rfl

theorem CountedSys.run (hr : (countedSystem cfg).Run s h) : ∃ h', (system cfg).Run s.sys h' := by
  refine hr.state_invariant (M := countedSystem cfg)
    (I := fun s : CountedSys => ∃ h', (system cfg).Run s.sys h')
    (fun s hi => ⟨[], .init hi.1⟩) fun s a s' ih hn => ?_
  obtain ⟨h', hr⟩ := ih
  rcases CountedSys.next_sys hn with heq | ⟨b, hb⟩
  · rw [heq]
    exact ⟨h', hr⟩
  · exact ⟨_, hr.step hb⟩

theorem find_count (hw' : (r.count ws).find id = some w') : ∃ w, ws.find id = some w ∧
    w'.organizationId = w.organizationId ∧
    w'.jobsProcessed = w.jobsProcessed + (if r = ⟨.processed, id, w.organizationId⟩ then 1 else 0) ∧
    w'.jobsFailed = w.jobsFailed + (if r = ⟨.failed, id, w.organizationId⟩ then 1 else 0) := by
  obtain ⟨o, worker, org⟩ := r
  unfold Answer.count at hw'
  cases o <;>
  · dsimp only at hw'
    rw [Table.find_update] at hw'
    obtain ⟨w, hw, rfl⟩ := Option.map_eq_some_iff.1 hw'
    have hid : w.id = id := Table.key_of_find hw
    refine ⟨w, hw, ?_⟩
    simp only [Answer.mk.injEq, Bool.and_eq_true, beq_iff_eq, hid, true_and, reduceCtorEq, false_and,
      if_false, Nat.add_zero, @eq_comm _ org]
    split <;> simp_all

/-- The counters of a row are the answers since it was inserted. -/
def Exact (s : CountedSys) (h : List (CountedSys × CountedLabel)) : Prop :=
  ∀ id w, s.counters.find id = some w →
    w.jobsProcessed = answersSince ⟨.processed, id, w.organizationId⟩ h ∧
    w.jobsFailed = answersSince ⟨.failed, id, w.organizationId⟩ h

theorem Exact.step (I : Exact s h) {h' : List (Sys × Label)} (hr : (system cfg).Run s.sys h')
    {a : CountedLabel} (hn : s.next cfg a = some s') : Exact s' ((s, a) :: h) := by
  intro id w' hw'
  cases a with
  | step a =>
    obtain ⟨t, ht, rfl⟩ := Option.map_eq_some_iff.1 hn
    have hfire := fireCounters_step s.counters hr ht
    dsimp only at hw'
    rw [hfire] at hw'
    simp only [answersSince]
    cases hans : s.sys.answer a with
    | none =>
      rw [hans] at hw'
      obtain ⟨h₁, h₂⟩ := I id w' hw'
      simp [h₁, h₂]
    | some r =>
      rw [hans] at hw'
      obtain ⟨w, hw, ho, hp, hf⟩ := find_count hw'
      obtain ⟨h₁, h₂⟩ := I id w hw
      rw [ho, hp, hf, h₁, h₂]
      simp only [Option.some.injEq]
      exact ⟨Nat.add_comm _ _, Nat.add_comm _ _⟩
  | register k org =>
    rw [CountedSys.next] at hn
    split at hn
    · obtain ⟨t, ht, rfl⟩ := Option.map_eq_some_iff.1 hn
      dsimp only at hw'
      rw [Table.find_insert] at hw'
      simp only [answersSince]
      split at hw'
      · next hc =>
        -- the row is new
        cases hw'
        obtain ⟨rfl, hnone⟩ := hc
        rw [if_pos ⟨rfl, hnone⟩, if_pos ⟨rfl, hnone⟩]
        exact ⟨rfl, rfl⟩
      · have hold : ¬ (k = id ∧ s.counters.find k = none) := by
          rintro ⟨rfl, hnone⟩
          rw [hnone] at hw'
          cases hw'
        rw [if_neg hold, if_neg hold]
        exact I id w' hw'
    · cases hn
  | cleanupWorkers pick =>
    obtain rfl := Option.some.inj hn
    dsimp only at hw'
    rw [Table.find_delete, Option.filter_eq_some_iff] at hw'
    exact I id w' hw'.1

/-- **Worker counters.** Every registered worker's counters are the completes
and fails answered with success to it, in its organization, since its row was
inserted. A step without such an answer (a sweep, a release, an oversized
dead-letter, a cancel, a retry, a refused report) changes no counter. -/
theorem worker_counters_exact (hr : (countedSystem cfg).Run s h) :
    (∀ id w, s.counters.find id = some w →
      w.jobsProcessed = answersSince ⟨.processed, id, w.organizationId⟩ h ∧
      w.jobsFailed = answersSince ⟨.failed, id, w.organizationId⟩ h) ∧
    (∀ a s', s.next cfg (.step a) = some s' → s.sys.answer a = none → s'.counters = s.counters) := by
  constructor
  · refine hr.invariant (M := countedSystem cfg) (C := fun _ _ => True) (I := Exact)
      (fun s hi id w hw => ?_) (fun s h a s' hr _ I _ hn => ?_) fun _ _ => trivial
    · rw [hi.2] at hw; cases hw
    · obtain ⟨h', hr'⟩ := CountedSys.run hr
      exact I.step hr' hn
  · intro a s' hn hans
    obtain ⟨h', hr'⟩ := CountedSys.run hr
    obtain ⟨t, ht, rfl⟩ := Option.map_eq_some_iff.1 hn
    have hfire := fireCounters_step s.counters hr' ht
    rw [hans] at hfire
    exact hfire

end Run

/-- Worker 1 registers, completes one job and fails another, whose lease sweep finds nothing. -/
theorem worker_counters_exact_reports : ∃ s h w, (countedSystem {}).Run s h ∧
    s.counters.find 1 = some w ∧ w.jobsProcessed = 1 ∧ w.jobsFailed = 1 ∧
    answersSince ⟨.processed, 1, 1⟩ h = 1 ∧ answersSince ⟨.failed, 1, 1⟩ h = 1 := by
  obtain ⟨s, h, hr, hp⟩ := Machine.Run.of_exec (countedSystem {})
    [.register 1 1, .step (.createCheck clientCreate), .step (.createInsert 0),
      .step (.createCheck clientCreate), .step (.createInsert 0),
      .step (.stmt (.dequeue 2 clientClaim)),
      .step (.stmt (.complete (clientHolds 0 (.single 2)))),
      .step (.stmt (.dequeue 3 clientClaim)),
      .step (.stmt (.failGrpc (clientHolds 1 (.single 3)) true "e")),
      .step (.stmt .recoverExpiredLeases)] {}
    (fun x => (x.1.counters.find 1).any fun w =>
      w.organizationId == 1 && w.jobsProcessed == 1 && w.jobsFailed == 1)
    ⟨⟨rfl, rfl⟩, rfl⟩ (by decide +kernel)
  simp only [Option.any_eq_true, Bool.and_eq_true, beq_iff_eq] at hp
  obtain ⟨w, hw, ⟨ho, hproc⟩, hfail⟩ := hp
  obtain ⟨h₁, h₂⟩ := (worker_counters_exact hr).1 1 w hw
  rw [ho] at h₁ h₂
  exact ⟨s, h, w, hr, hw, hproc, hfail, h₁.symm.trans hproc, h₂.symm.trans hfail⟩

/-- A worker that was offline for a week loses its row, and with it its
counters: registered again it starts at 0, with one complete answered before. -/
theorem worker_counters_registered_anew : ∃ s h w, (countedSystem {}).Run s h ∧
    s.counters.find 1 = some w ∧ w.organizationId = 1 ∧ w.jobsProcessed = 0 ∧
    answersTotal ⟨.processed, 1, 1⟩ h = 1 := by
  obtain ⟨s, h, hr, hp⟩ := Machine.Run.of_exec (countedSystem {})
    [.register 1 1, .step (.createCheck clientCreate), .step (.createInsert 0),
      .step (.stmt (.dequeue 1 clientClaim)),
      .step (.stmt (.complete (clientHolds 0 (.single 1)))),
      .step (.tick 604800001), .step (.stmt .markStaleWorkers),
      .cleanupWorkers fun _ => true, .register 1 1] {}
    (fun x => ((x.1.counters.find 1).any fun w => w.organizationId == 1 && w.jobsProcessed == 0) &&
      answersTotal ⟨.processed, 1, 1⟩ x.2 == 1)
    ⟨⟨rfl, rfl⟩, rfl⟩ (by decide +kernel)
  simp only [Option.any_eq_true, Bool.and_eq_true, beq_iff_eq] at hp
  obtain ⟨⟨w, hw, ho, hproc⟩, htotal⟩ := hp
  exact ⟨s, h, w, hr, hw, ho, hproc, htotal⟩

end Spooled
